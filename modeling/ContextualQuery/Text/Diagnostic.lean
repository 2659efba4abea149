import ContextualQuery.Text.Span
/-!
# Pictures of a fault

A diagnostic shows a header, the line and column of a span, the line itself with a caret under
the start of the span and tildes under its rest, and a hint if there is one.
-/

namespace ContextualQuery.Diagnostic

/-- A run of one character. -/
def run (c : Char) (count : Nat) : String := String.ofList (List.replicate count c)

/-- A line number, filled up with blanks on the left to three characters. -/
def lineNumber (n : Nat) : String := run ' ' (3 - (toString n).length) ++ toString n

/-- The number of tildes after the caret: the span's bytes less one, but no more than fit under
the rest of the line. -/
def tildes (shown : List Char) (span : Span) (column : Nat) : Nat :=
  min span.length (byteLength shown + 1 - column) - 1

/-- The line under its number, and the marks below it. -/
def picture (line : Nat) (shown : List Char) (span : Span) (column : Nat) : String :=
  "   |\n" ++ lineNumber line ++ "| " ++ String.ofList shown ++ "\n   |" ++ run ' ' column ++ "^"
    ++ run '~' (tildes shown span column) ++ "\n"

/-- The whole picture. A span that starts behind the last line shows no line. -/
def render (text : String) (span : Span) (header : String) (hint : Option String) : String :=
  let at_ := Position.ofOffset text span.start
  let shown := match (lines text)[at_.line - 1]? with
    | some line => picture at_.line line span at_.column
    | none => ""
  let hinted := match hint with
    | some h => "   = hint: " ++ h ++ "\n"
    | none => ""
  header ++ "\n  --> line " ++ toString at_.line ++ ":" ++ toString at_.column ++ "\n"
    ++ shown ++ hinted

end ContextualQuery.Diagnostic
