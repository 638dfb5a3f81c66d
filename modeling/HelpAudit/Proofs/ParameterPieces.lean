import Mathlib.Data.List.Basic
import HelpAudit.Proofs.Derivation

/-! A parameter list by its pieces. The list is read token by token, with a segment as the state; here it
    is described as a whole: it ends at the first closing parenthesis outside all groups, the commas
    outside all groups cut it into pieces, and each piece with a variable outside all groups is a
    parameter, whose parts are looked up in the piece. Each field of the segment is a function of the
    tokens read so far, so both descriptions agree. -/

namespace HelpAudit

/-! ### Pieces -/

/-- A token with the number of groups that are open before it. -/
structure LeveledToken where
  token : Token
  depth : Nat

/-- The tokens with their depths, when `depth` groups are open before them. Brackets of all shapes count
    alike, and a closing one that has no opening one counts for nothing. -/
def leveled (depth : Nat) : List Token → List LeveledToken
  | [] => []
  | t :: ts => ⟨t, depth⟩ :: leveled (depthAfter t.kind depth) ts

namespace LeveledToken

/-- Whether the token is of the kind and stands outside all groups. -/
def isOuter (kind : TokenKind) (p : LeveledToken) : Bool := p.depth = 0 && p.token.kind = kind

/-- Whether the token is a comment outside all groups. -/
def isOuterComment (p : LeveledToken) : Bool := p.depth = 0 && p.token.kind.isComment

/-- Whether the token is neither a newline nor a comment. -/
def isCode (p : LeveledToken) : Bool := !p.token.kind.isTrivia

/-- Whether the token closes a group and no group is open behind it. -/
def closesLast (p : LeveledToken) : Bool := p.token.kind.closesGroup && p.depth ≤ 1

end LeveledToken

/-- The bracket groups that open outside all groups, each given by its ends. -/
def bracketGroups : List LeveledToken → List (Token × Token)
  | [] => []
  | p :: piece =>
    (if p.isOuter (.opening .bracket) then
      ((piece.find? (·.closesLast)).map fun close => (p.token, close.token)).toList
    else []) ++ bracketGroups piece

/-- The parameter that a piece between commas declares, if a variable stands in it outside all groups. -/
def pieceParameter? (script : Script) (piece : List LeveledToken) : Option Parameter :=
  (piece.find? (·.isOuter .var)).map fun var =>
    let before := piece.takeWhile (!·.isOuter .var)
    let value := ((piece.dropWhile (!·.isOuter .var)).dropWhile (!·.isOuter .equals)).tail
    let code := piece.filter (·.isCode)
    let stop := (code.getLast?.getD var).token.stop
    { name := variableName var.token.value
      extent := script.extent (code.head?.getD var).token.start stop
      attributes := (bracketGroups before).map fun group => script.text group.1.start group.2.stop
      defaultValue :=
        if value.any (·.isCode) then
          value.head?.map fun first => Text.trim (script.text first.token.start stop)
        else none
      leadingComments := (before.filter (·.isOuterComment)).map (·.token.value) }

/-- The number of groups that are open behind the tokens. -/
def depthBehind (depth : Nat) (ts : List Token) : Nat := ts.foldl (fun d t => depthAfter t.kind d) depth

/-- The list closes with `close`: the first closing parenthesis outside all groups. -/
structure ClosesList (depth : Nat) (inside : List Token) (close : Token) : Prop where
  kind : close.kind = .closing .paren
  outer : depthBehind depth inside = 0
  first : ∀ p ∈ leveled depth inside, p.isOuter (.closing .paren) = false

/-! ### One token -/

theorem LeveledToken.isOuter_iff {kind : TokenKind} {t : Token} {depth : Nat} :
    isOuter kind ⟨t, depth⟩ = true ↔ depth = 0 ∧ t.kind = kind := by
  simp [isOuter]

/-- A comma outside all groups leaves the next piece outside all groups. -/
theorem depthAfter_of_comma {t : Token} {depth : Nat} (h : LeveledToken.isOuter .comma ⟨t, depth⟩ = true) :
    depth = 0 ∧ depthAfter t.kind depth = 0 := by
  obtain ⟨rfl, hkind⟩ := LeveledToken.isOuter_iff.mp h
  exact ⟨rfl, by rw [hkind]; rfl⟩

namespace Segment

/-- The segment after one more token, field by field. -/
def after (script : Script) (segment : Segment) (p : LeveledToken) : Segment where
  span := if p.isCode then (segment.touch p.token).span else segment.span
  name := segment.name.or (if p.isOuter .var then some p.token.value else none)
  attributeStart :=
    if p.closesLast then none
    else if segment.name.isNone && p.isOuter (.opening .bracket) then some p.token.start
    else segment.attributeStart
  attributes := segment.attributes ++
    if p.closesLast then (segment.attributeStart.map (script.text · p.token.stop)).toList else []
  default :=
    if p.isOuter .equals && segment.name.isSome && segment.default = .absent then .announced
    else segment.default.read p.token
  comments := segment.comments ++
    if segment.name.isNone && p.isOuterComment then [p.token.value] else []

/-- One token changes the segment and the depth independently. -/
theorem read_eq_after (script : Script) (segment : Segment) (depth : Nat) (t : Token) :
    segment.read script depth t = (segment.after script ⟨t, depth⟩, depthAfter t.kind depth) := by
  obtain ⟨span, name, start, attributes, default, comments⟩ := segment
  rw [read, after, depthAfter, LeveledToken.closesLast, LeveledToken.isOuterComment, LeveledToken.isCode]
  cases hkind : t.kind with
  | opening opener =>
    cases name <;> cases depth <;> cases opener <;> simp [hkind, LeveledToken.isOuter, touch,
      TokenKind.opensGroup, TokenKind.closesGroup, TokenKind.isTrivia, TokenKind.isComment]
  | closing closer =>
    -- the depth behind the token is zero from depth one and from depth zero
    rcases depth with - | - | depth <;> cases start <;> simp [hkind, LeveledToken.isOuter, touch,
      TokenKind.opensGroup, TokenKind.closesGroup, TokenKind.isTrivia, TokenKind.isComment]
  | equals =>
    cases name <;> cases depth <;> cases default <;> simp [hkind, LeveledToken.isOuter, touch,
      DefaultValue.read, TokenKind.opensGroup, TokenKind.closesGroup, TokenKind.isTrivia,
      TokenKind.isComment]
  | _ =>
    cases name <;> cases depth <;> simp [hkind, LeveledToken.isOuter, touch,
      TokenKind.opensGroup, TokenKind.closesGroup, TokenKind.isTrivia, TokenKind.isComment]

end Segment

/-! ### All tokens of a piece -/

namespace Segment

variable (script : Script)

theorem name_foldl (piece : List LeveledToken) (segment : Segment) :
    (piece.foldl (after script) segment).name =
      segment.name.or ((piece.find? (·.isOuter .var)).map (·.token.value)) := by
  induction piece generalizing segment with
  | nil => simp
  | cons p piece ih =>
    rw [List.foldl_cons, ih, List.find?_cons]
    cases hvar : p.isOuter .var <;> simp [after, hvar]

/-- Behind the name, comments count no more. -/
theorem comments_foldl_of_named (piece : List LeveledToken) {segment : Segment}
    (hname : segment.name.isSome = true) :
    (piece.foldl (after script) segment).comments = segment.comments := by
  induction piece generalizing segment with
  | nil => rfl
  | cons p piece ih =>
    obtain ⟨name, hname⟩ := Option.isSome_iff_exists.mp hname
    rw [List.foldl_cons, ih (by simp [after, hname])]
    simp [after, hname]

/-- The comments are those outside all groups in front of the name. -/
theorem comments_foldl (piece : List LeveledToken) {segment : Segment} (hname : segment.name = none) :
    (piece.foldl (after script) segment).comments = segment.comments ++
      ((piece.takeWhile (!·.isOuter .var)).filter (·.isOuterComment)).map (·.token.value) := by
  induction piece generalizing segment with
  | nil => simp
  | cons p piece ih =>
    rw [List.foldl_cons, List.takeWhile_cons]
    cases hvar : p.isOuter .var with
    | true =>
      have hcomment : p.isOuterComment = false := by
        simp [LeveledToken.isOuterComment, LeveledToken.isOuter_iff.mp hvar, TokenKind.isComment]
      rw [comments_foldl_of_named script piece (by simp [after, hvar])]
      simp [after, hcomment]
    | false =>
      rw [ih (by simp [after, hname, hvar])]
      cases hcomment : p.isOuterComment <;> simp [after, hname, hcomment]

/-- Behind the name, attributes count no more. -/
theorem attributes_foldl_of_named (piece : List LeveledToken) {segment : Segment}
    (hname : segment.name.isSome = true) (hstart : segment.attributeStart = none) :
    (piece.foldl (after script) segment).attributes = segment.attributes := by
  induction piece generalizing segment with
  | nil => rfl
  | cons p piece ih =>
    obtain ⟨name, hname⟩ := Option.isSome_iff_exists.mp hname
    rw [List.foldl_cons, ih (by simp [after, hname]) (by simp [after, hname, hstart])]
    simp [after, hstart]

/-- An attribute that is being read has an open bracket. -/
def IsOpen (segment : Segment) (depth : Nat) : Prop := segment.attributeStart.isSome = true → 0 < depth

theorem IsOpen.attributeStart_eq_none {segment : Segment} (h : segment.IsOpen 0) :
    segment.attributeStart = none := by
  cases hstart : segment.attributeStart with
  | none => rfl
  | some start => exact absurd (h (by simp [hstart])) (Nat.lt_irrefl 0)

/-- An attribute that is still being read after a token has its bracket open there. -/
theorem IsOpen.after {segment : Segment} {depth : Nat} (h : segment.IsOpen depth) (t : Token) :
    (segment.after script ⟨t, depth⟩).IsOpen (depthAfter t.kind depth) := by
  intro hstart
  simp only [Segment.after, LeveledToken.closesLast, LeveledToken.isOuter] at hstart
  rw [depthAfter]
  cases hopens : t.kind.opensGroup with
  | true => simp
  | false =>
    have hkind : t.kind ≠ .opening .bracket := by
      intro hkind
      simp [hkind, TokenKind.opensGroup] at hopens
    cases hcloses : t.kind.closesGroup with
    | true =>
      simp only [hcloses, hkind] at hstart
      by_cases hle : depth ≤ 1
      · simp [hle] at hstart
      · simp
        omega
    | false =>
      have := h (by simpa [hcloses, hkind] using hstart)
      simpa using this

/-- The attributes before the name: first the one that is being read, then those that open there. -/
theorem attributes_foldl (ts : List Token) {depth : Nat} {segment : Segment} (hname : segment.name = none)
    (hopen : segment.IsOpen depth) :
    ((leveled depth ts).foldl (after script) segment).attributes = segment.attributes ++
      ((segment.attributeStart.bind fun start =>
        (((leveled depth ts).takeWhile (!·.isOuter .var)).find? (·.closesLast)).map fun close =>
          script.text start close.token.stop).toList ++
      (bracketGroups ((leveled depth ts).takeWhile (!·.isOuter .var))).map fun group =>
        script.text group.1.start group.2.stop) := by
  induction ts generalizing depth segment with
  | nil => cases hstart : segment.attributeStart <;> simp [leveled, bracketGroups]
  | cons t ts ih =>
    rw [leveled, List.foldl_cons, List.takeWhile_cons]
    cases hvar : LeveledToken.isOuter .var ⟨t, depth⟩ with
    | true =>
      obtain ⟨rfl, hkind⟩ := LeveledToken.isOuter_iff.mp hvar
      have hstart := hopen.attributeStart_eq_none
      have hafter : (segment.after script ⟨t, 0⟩).attributeStart = none := by
        simp [after, hstart, LeveledToken.isOuter, hkind]
      rw [attributes_foldl_of_named script _ (by simp [after, hvar]) hafter]
      simp [after, hstart, bracketGroups]
    | false =>
      rw [ih (by simp [after, hname, hvar]) (hopen.after script t)]
      cases hbracket : LeveledToken.isOuter (.opening .bracket) ⟨t, depth⟩ with
      | true =>
        -- a new attribute, and no other is being read
        obtain ⟨rfl, hkind⟩ := LeveledToken.isOuter_iff.mp hbracket
        have hclose : LeveledToken.closesLast ⟨t, 0⟩ = false := by
          simp [LeveledToken.closesLast, hkind, TokenKind.closesGroup]
        simp only [after, hclose, hname, hbracket, hopen.attributeStart_eq_none]
        cases hfind : ((leveled (depthAfter t.kind 0) ts).takeWhile (!·.isOuter .var)).find?
          (·.closesLast) <;> simp [bracketGroups, hbracket, hfind]
      | false =>
        cases hclose : LeveledToken.closesLast ⟨t, depth⟩ <;> cases hstart : segment.attributeStart <;>
          simp [after, hclose, hstart, bracketGroups, hbracket]

/-- The span reaches from the first token that is no trivia to the last one. -/
theorem span_foldl (piece : List LeveledToken) (segment : Segment) :
    (piece.foldl (after script) segment).span =
      ((piece.filter (·.isCode)).getLast?.map fun last =>
        ((segment.span.map (·.1)).getD ((piece.filter (·.isCode)).head?.getD last).token.start,
          last.token.stop)).or segment.span := by
  induction piece generalizing segment with
  | nil => simp
  | cons p piece ih =>
    rw [List.foldl_cons, ih, List.filter_cons]
    cases hcode : p.isCode with
    | true =>
      cases hlast : (piece.filter (·.isCode)).getLast? with
      | none =>
        rw [List.getLast?_eq_none_iff] at hlast
        simp [after, hcode, touch, hlast]
      | some last =>
        simp [after, hcode, touch, List.getLast?_cons, hlast]
    | false => simp [after, hcode]

end Segment

namespace DefaultValue

/-- How far the default value has come after the tokens. -/
def readAll (d : DefaultValue) (value : List LeveledToken) : DefaultValue :=
  value.foldl (fun d p => d.read p.token) d

theorem readAll_present (value : List LeveledToken) (start : Nat) :
    (present start).readAll value = .present start := by
  induction value with
  | nil => rfl
  | cons p value ih => exact ih

theorem readAll_opened (value : List LeveledToken) (start : Nat) :
    (opened start).readAll value = if value.any (·.isCode) then .present start else .opened start := by
  induction value with
  | nil => rfl
  | cons p value ih =>
    rw [readAll, List.foldl_cons, ← readAll, read, List.any_cons]
    cases htrivia : p.token.kind.isTrivia <;> simp [LeveledToken.isCode, htrivia, ih, readAll_present]

/-- The value starts with the first token behind the equals sign, once code is among them. -/
theorem readAll_announced (p : LeveledToken) (value : List LeveledToken) :
    announced.readAll (p :: value) =
      if (p :: value).any (·.isCode) then .present p.token.start else .opened p.token.start := by
  rw [readAll, List.foldl_cons, ← readAll, read, List.any_cons]
  cases htrivia : p.token.kind.isTrivia <;>
    simp [LeveledToken.isCode, htrivia, readAll_opened, readAll_present]

end DefaultValue

namespace Segment

variable (script : Script)

/-- Behind the equals sign the default value depends on the tokens there only. -/
theorem default_foldl_of_announced (piece : List LeveledToken) {segment : Segment}
    (h : segment.default ≠ .absent) :
    (piece.foldl (after script) segment).default = segment.default.readAll piece := by
  induction piece generalizing segment with
  | nil => rfl
  | cons p piece ih =>
    have hread : (segment.after script p).default = segment.default.read p.token := by
      simp [after, h]
    have hne : (segment.after script p).default ≠ .absent := by
      rw [hread]
      revert h
      cases segment.default <;> simp [DefaultValue.read] <;> split <;> simp
    rw [List.foldl_cons, ih hne, hread]
    rfl

/-- The default value in the tokens from the equals sign on. -/
def defaultFrom : List LeveledToken → DefaultValue
  | [] => .absent
  | _ :: value => DefaultValue.announced.readAll value

/-- Behind the name the first equals sign outside all groups announces a default value. -/
theorem default_foldl_of_named (piece : List LeveledToken) {segment : Segment}
    (hname : segment.name.isSome = true) (h : segment.default = .absent) :
    (piece.foldl (after script) segment).default =
      defaultFrom (piece.dropWhile (!·.isOuter .equals)) := by
  induction piece generalizing segment with
  | nil => exact h
  | cons p piece ih =>
    rw [List.foldl_cons, List.dropWhile_cons]
    cases hequals : p.isOuter .equals with
    | true =>
      have hannounced : (segment.after script p).default = .announced := by
        simp [after, hequals, hname, h]
      rw [default_foldl_of_announced script piece (by simp [hannounced]), hannounced]
      rfl
    | false =>
      obtain ⟨name, hsome⟩ := Option.isSome_iff_exists.mp hname
      exact ih (by simp [after, hsome]) (by simp [after, hequals, h, DefaultValue.read])

/-- The default value is looked for behind the name. -/
theorem default_foldl (piece : List LeveledToken) {segment : Segment} (hname : segment.name = none)
    (h : segment.default = .absent) :
    (piece.foldl (after script) segment).default =
      defaultFrom ((piece.dropWhile (!·.isOuter .var)).dropWhile (!·.isOuter .equals)) := by
  induction piece generalizing segment with
  | nil => exact h
  | cons p piece ih =>
    have habsent : (segment.after script p).default = .absent := by
      simp [after, hname, h, DefaultValue.read]
    rw [List.foldl_cons, List.dropWhile_cons]
    cases hvar : p.isOuter .var with
    | true =>
      have hequals : p.isOuter .equals = false := by
        simp [LeveledToken.isOuter, LeveledToken.isOuter_iff.mp hvar]
      rw [default_foldl_of_named script piece (by simp [after, hvar]) habsent]
      simp [hequals]
    | false => exact ih (by simp [after, hname, hvar]) habsent

/-- Where the default value starts, once code belongs to it. -/
def defaultStart? : DefaultValue → Option Nat
  | .present start => some start
  | _ => none

theorem defaultStart?_defaultFrom (ps : List LeveledToken) : defaultStart? (defaultFrom ps) =
    if ps.tail.any (·.isCode) then ps.tail.head?.map (·.token.start) else none := by
  rcases ps with - | ⟨p, - | ⟨q, value⟩⟩
  · rfl
  · rfl
  · rw [defaultFrom, DefaultValue.readAll_announced, List.tail_cons]
    split <;> rfl

theorem parameter?_eq_some {segment : Segment} {name : String} {start stop : Nat}
    (hname : segment.name = some name) (hspan : segment.span = some (start, stop)) :
    segment.parameter? script = some {
      name := variableName name
      extent := script.extent start stop
      attributes := segment.attributes
      defaultValue := (defaultStart? segment.default).map fun first => Text.trim (script.text first stop)
      leadingComments := segment.comments } := by
  rw [parameter?, hname, hspan]
  cases segment.default <;> rfl

/-- Reading a piece token by token gives the parameter that the piece as a whole declares. -/
theorem parameter?_foldl (ts : List Token) :
    ((leveled 0 ts).foldl (after script) {}).parameter? script =
      pieceParameter? script (leveled 0 ts) := by
  have hname := name_foldl script (leveled 0 ts) {}
  have hspan := span_foldl script (leveled 0 ts) {}
  have hopen : IsOpen {} 0 := by simp [IsOpen]
  rw [pieceParameter?]
  cases hvar : (leveled 0 ts).find? (·.isOuter .var) with
  | none => simp [parameter?, hname, hvar]
  | some var =>
    -- the variable is code, so the piece has a first and a last token for the extent
    have hcode : var ∈ (leveled 0 ts).filter (·.isCode) := by
      have hkind := (LeveledToken.isOuter_iff.mp (List.find?_some hvar)).2
      refine List.mem_filter.mpr ⟨List.mem_of_find?_eq_some hvar, ?_⟩
      simp [LeveledToken.isCode, hkind, TokenKind.isTrivia, TokenKind.isComment]
    obtain ⟨first, hfirst⟩ : ∃ first, ((leveled 0 ts).filter (·.isCode)).head? = some first :=
      ⟨_, List.head?_eq_some_head (List.ne_nil_of_mem hcode)⟩
    obtain ⟨last, hlast⟩ : ∃ last, ((leveled 0 ts).filter (·.isCode)).getLast? = some last :=
      ⟨_, List.getLast?_eq_some_getLast (List.ne_nil_of_mem hcode)⟩
    rw [hvar] at hname
    rw [hfirst, hlast] at hspan
    rw [parameter?_eq_some script hname hspan, default_foldl script _ rfl rfl,
      defaultStart?_defaultFrom, attributes_foldl script ts rfl hopen, comments_foldl script _ rfl]
    simp only [hfirst, hlast, Option.map_some]
    congr 2
    split
    · rw [Option.map_map]
      rfl
    · rfl

end Segment

/-! ### Lists -/

theorem closesList_cons {depth : Nat} {t close : Token} {inside : List Token} :
    ClosesList depth (t :: inside) close ↔ LeveledToken.isOuter (.closing .paren) ⟨t, depth⟩ = false ∧
      ClosesList (depthAfter t.kind depth) inside close := by
  constructor
  · rintro ⟨hkind, houter, hfirst⟩
    obtain ⟨ht, hfirst⟩ := List.forall_mem_cons.mp hfirst
    exact ⟨ht, hkind, houter, hfirst⟩
  · rintro ⟨ht, hkind, houter, hfirst⟩
    exact ⟨hkind, houter, List.forall_mem_cons.mpr ⟨ht, hfirst⟩⟩

/-- The tokens close a list somewhere, or have no closing parenthesis outside all groups. -/
theorem closesList_or_not (depth : Nat) (ts : List Token) :
    (∃ inside close rest, ts = inside ++ close :: rest ∧ ClosesList depth inside close) ∨
      ∀ p ∈ leveled depth ts, p.isOuter (.closing .paren) = false := by
  induction ts generalizing depth with
  | nil => exact .inr (by simp [leveled])
  | cons t ts ih =>
    cases hclose : LeveledToken.isOuter (.closing .paren) ⟨t, depth⟩ with
    | true =>
      obtain ⟨rfl, hkind⟩ := LeveledToken.isOuter_iff.mp hclose
      exact .inl ⟨[], t, ts, rfl, hkind, rfl, by simp [leveled]⟩
    | false =>
      rcases ih (depthAfter t.kind depth) with ⟨inside, close, rest, rfl, hcloses⟩ | hnone
      · exact .inl ⟨t :: inside, close, rest, rfl, closesList_cons.mpr ⟨hclose, hcloses⟩⟩
      · exact .inr (List.forall_mem_cons.mpr ⟨hclose, hnone⟩)

section Lists

variable (script : Script) (opener : Token)

/-- One token of the list: its end, the end of a piece, or a part of the piece. -/
theorem parameterList_cons (segment : Segment) (depth : Nat) (t : Token) (ts : List Token) :
    parameterList script opener segment depth (t :: ts) =
      if LeveledToken.isOuter (.closing .paren) ⟨t, depth⟩ then
        .ok ⟨(segment.parameter? script).toList, t, ts⟩
      else if LeveledToken.isOuter .comma ⟨t, depth⟩ then
        (parameterList script opener {} 0 ts).map fun list =>
          { list with parameters := (segment.parameter? script).toList ++ list.parameters }
      else parameterList script opener (segment.after script ⟨t, depth⟩) (depthAfter t.kind depth) ts := by
  rw [parameterList, Segment.read_eq_after]
  simp only [LeveledToken.isOuter, Bool.and_eq_true, decide_eq_true_eq]
  split
  · rfl
  · split
    · cases parameterList script opener {} 0 ts <;> rfl
    · rfl

/-- A list that closes is read piece by piece; its first piece goes on with the segment. -/
theorem parameterList_of_closesList {segment : Segment} {depth : Nat} {inside : List Token} {close : Token}
    (h : ClosesList depth inside close) (rest : List Token) {piece : List LeveledToken}
    {pieces : List (List LeveledToken)}
    (hsplit : (leveled depth inside).splitOnP (·.isOuter .comma) = piece :: pieces) :
    parameterList script opener segment depth (inside ++ close :: rest) =
      .ok ⟨((piece.foldl (Segment.after script) segment).parameter? script).toList ++
        pieces.filterMap fun piece => (piece.foldl (Segment.after script) {}).parameter? script,
        close, rest⟩ := by
  induction inside generalizing segment depth piece pieces with
  | nil =>
    obtain ⟨hkind, rfl, -⟩ := h
    obtain ⟨rfl, rfl⟩ : piece = [] ∧ pieces = [] := by simpa [leveled, eq_comm] using hsplit
    simp [parameterList_cons, LeveledToken.isOuter, hkind]
  | cons t inside ih =>
    obtain ⟨ht, h⟩ := closesList_cons.mp h
    obtain ⟨first, others, hothers⟩ := List.exists_cons_of_ne_nil
      (List.splitOnP_ne_nil (·.isOuter .comma) (leveled (depthAfter t.kind depth) inside))
    rw [leveled, List.splitOnP_cons_eq_if_modifyHead, hothers] at hsplit
    rw [List.cons_append, parameterList_cons, if_neg (by simp [ht])]
    cases hcomma : LeveledToken.isOuter .comma ⟨t, depth⟩ with
    | true =>
      -- the comma ends the piece and the rest starts anew outside all groups
      obtain ⟨rfl, hzero⟩ := depthAfter_of_comma hcomma
      rw [hzero] at h hothers
      obtain ⟨rfl, rfl⟩ : piece = [] ∧ pieces = first :: others := by simpa [hcomma, eq_comm] using hsplit
      rw [if_pos rfl, ih h hothers]
      cases hparameter : (first.foldl (Segment.after script) {}).parameter? script <;>
        simp [Except.map, hparameter]
    | false =>
      obtain ⟨rfl, rfl⟩ : piece = ⟨t, depth⟩ :: first ∧ pieces = others := by
        simpa [hcomma, eq_comm] using hsplit
      rw [if_neg (by simp), ih h hothers, List.foldl_cons]

/-- A list without closing parenthesis is a fault of the opening one. -/
theorem parameterList_of_not_closed {segment : Segment} {depth : Nat} {ts : List Token}
    (h : ∀ p ∈ leveled depth ts, p.isOuter (.closing .paren) = false) :
    parameterList script opener segment depth ts = script.fault opener.start .missingParen := by
  induction ts generalizing segment depth with
  | nil => rfl
  | cons t ts ih =>
    obtain ⟨ht, hts⟩ := List.forall_mem_cons.mp h
    rw [parameterList_cons, if_neg (by simp [ht])]
    cases hcomma : LeveledToken.isOuter .comma ⟨t, depth⟩ with
    | true =>
      obtain ⟨rfl, hzero⟩ := depthAfter_of_comma hcomma
      rw [if_pos rfl, ih (hzero ▸ hts)]
      rfl
    | false => rw [if_neg (by simp), ih hts]

end Lists

/-- In every piece the depth is counted from zero again. -/
theorem splitOnP_leveled (depth : Nat) (ts : List Token) : ∃ us pieces,
    (leveled depth ts).splitOnP (·.isOuter .comma) = leveled depth us :: pieces ∧
      ∀ piece ∈ pieces, ∃ vs, piece = leveled 0 vs := by
  induction ts generalizing depth with
  | nil => exact ⟨[], [], by simp [leveled], by simp⟩
  | cons t ts ih =>
    obtain ⟨us, pieces, hsplit, hpieces⟩ := ih (depthAfter t.kind depth)
    rw [leveled, List.splitOnP_cons_eq_if_modifyHead, hsplit]
    cases hcomma : LeveledToken.isOuter .comma ⟨t, depth⟩ with
    | true =>
      obtain ⟨rfl, hzero⟩ := depthAfter_of_comma hcomma
      exact ⟨[], _, rfl, List.forall_mem_cons.mpr ⟨⟨us, by rw [hzero]⟩, hpieces⟩⟩
    | false => exact ⟨t :: us, pieces, rfl, hpieces⟩

/-- The parameters of a list that closes are those of its pieces. -/
theorem parameterList_eq_pieces (script : Script) (opener : Token) {inside : List Token} {close : Token}
    (h : ClosesList 0 inside close) (rest : List Token) :
    parameterList script opener {} 0 (inside ++ close :: rest) =
      .ok ⟨((leveled 0 inside).splitOnP (·.isOuter .comma)).filterMap (pieceParameter? script),
        close, rest⟩ := by
  obtain ⟨us, pieces, hsplit, hpieces⟩ := splitOnP_leveled 0 inside
  have hread : pieces.filterMap (fun piece => (piece.foldl (Segment.after script) {}).parameter? script) =
      pieces.filterMap (pieceParameter? script) := by
    refine List.filterMap_congr fun piece hpiece => ?_
    obtain ⟨vs, rfl⟩ := hpieces piece hpiece
    exact Segment.parameter?_foldl script vs
  rw [parameterList_of_closesList script opener h rest hsplit, hsplit, hread, Segment.parameter?_foldl]
  cases hparameter : pieceParameter? script (leveled 0 us) <;> simp [hparameter]

/-- A parameter list can be read if and only if a closing parenthesis stands outside all groups. The first
    one closes it, and its parameters are those of the pieces between the commas outside all groups. -/
theorem parameterList_by_pieces (script : Script) (opener : Token) (ts : List Token) :
    (∀ list, parameterList script opener {} 0 ts = .ok list ↔
      ∃ inside close rest, ts = inside ++ close :: rest ∧ ClosesList 0 inside close ∧
        list = ⟨((leveled 0 inside).splitOnP (·.isOuter .comma)).filterMap (pieceParameter? script),
          close, rest⟩) ∧
    ∀ error, parameterList script opener {} 0 ts = .error error ↔
      (∀ p ∈ leveled 0 ts, p.isOuter (.closing .paren) = false) ∧
        error = .ofOffset script.source opener.start .missingParen := by
  rcases closesList_or_not 0 ts with ⟨inside, close, rest, rfl, hcloses⟩ | hnone
  · -- the outcome is known in either case, so each direction compares it with the one assumed
    have hok := parameterList_eq_pieces script opener hcloses rest
    refine ⟨fun list => ⟨fun h => ?_, ?_⟩, fun error => ⟨fun h => ?_, ?_⟩⟩
    · rw [hok] at h
      exact ⟨inside, close, rest, rfl, hcloses, (Except.ok.inj h).symm⟩
    · rintro ⟨inside', close', rest', hts, hcloses', rfl⟩
      rw [hts, parameterList_eq_pieces script opener hcloses' rest']
    · rw [hok] at h
      cases h
    · rintro ⟨hnone, -⟩
      rw [parameterList_of_not_closed script opener hnone] at hok
      cases hok
  · have hfault : parameterList script opener {} 0 ts = script.fault opener.start .missingParen :=
      parameterList_of_not_closed script opener hnone
    refine ⟨fun list => ⟨fun h => ?_, ?_⟩, fun error => ⟨fun h => ⟨hnone, ?_⟩, ?_⟩⟩
    · rw [hfault] at h
      cases h
    · rintro ⟨inside, close, rest, rfl, hcloses, -⟩
      rw [parameterList_eq_pieces script opener hcloses rest] at hfault
      cases hfault
    · rw [hfault] at h
      exact (Except.error.inj h).symm
    · rintro ⟨-, rfl⟩
      exact hfault

end HelpAudit
