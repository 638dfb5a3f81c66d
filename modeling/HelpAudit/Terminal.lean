/-! Styled text for terminals. A text is a list of spans, each with a style, and is shown either plain
    or with the escape sequences that switch the styles on and off. -/

namespace HelpAudit

/-- The colours in use. -/
inductive Color where
  | red
  | green
  | yellow
  | blue
  | cyan
  deriving DecidableEq

/-- The number that selects a colour. -/
def Color.code : Color → Nat
  | .red => 31
  | .green => 32
  | .yellow => 33
  | .blue => 34
  | .cyan => 36

/-- How a span looks. -/
structure Style where
  bold : Bool := false
  dimmed : Bool := false
  underline : Bool := false
  color : Option Color := none
  deriving DecidableEq

namespace Style

/-- The codes of a style, attributes before the colour. -/
def codes (style : Style) : List Nat :=
  (if style.bold then [1] else []) ++ (if style.dimmed then [2] else []) ++
    (if style.underline then [4] else []) ++ (style.color.map (·.code)).toList

/-- The sequence that switches a style on. -/
def opening (style : Style) : List Char :=
  ['\x1b', '['] ++ (";".intercalate (style.codes.map toString)).toList ++ ['m']

/-- The sequence that switches every style off. -/
def reset : List Char := ['\x1b', '[', '0', 'm']

/-- Switches a style on again after each reset in a text, so that a styled text inside another does
    not end the outer style. -/
def reopened (opening : List Char) : List Char → List Char
  | '\x1b' :: '[' :: '0' :: 'm' :: rest => reset ++ opening ++ reopened opening rest
  | c :: rest => c :: reopened opening rest
  | [] => []

/-- A text in a style. The style without codes leaves the text alone. -/
def paint (style : Style) (text : List Char) : List Char :=
  if style.codes.isEmpty then text
  else style.opening ++ reopened style.opening text ++ reset

end Style

/-- A piece of text in one style. -/
structure Span where
  text : String
  style : Style := {}
  deriving DecidableEq

instance : Coe String Span := ⟨fun text => { text := text }⟩

/-- A span as it is shown. -/
def Span.render (colored : Bool) (span : Span) : List Char :=
  if colored then span.style.paint span.text.toList else span.text.toList

/-- Spans as they are shown, one after the other. -/
def renderSpans (colored : Bool) (spans : List Span) : String :=
  .ofList (spans.flatMap (·.render colored))

end HelpAudit
