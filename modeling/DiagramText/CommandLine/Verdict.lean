import DiagramText.Validation.Report

/-! A validation report as it is shown in a terminal, with or without colours. -/
namespace DiagramText.CommandLine

inductive Colour where
  | red
  | green
  | yellow
  | cyan
deriving DecidableEq, Repr

/-- The number of the colour among the 256 of a terminal. -/
def Colour.code : Colour → Nat
  | .red => 9
  | .green => 10
  | .yellow => 11
  | .cyan => 14

/-- What colours there are to paint with. `muted` is where the user has switched colours off but
the program is told to paint: the sequences are written and name no colour. -/
inductive Palette where
  | plain
  | full
  | muted
deriving DecidableEq, Repr

/-- Sets the foreground before the text and resets it behind. -/
def paint (palette : Palette) (colour : Colour) (text : String) : String :=
  match palette with
  | .plain => text
  | .full => "\x1b[38;5;" ++ toString colour.code ++ "m" ++ text ++ "\x1b[39m"
  | .muted => "\x1b[m" ++ text ++ "\x1b[m"

def verdict (report : Validation.Report) : Colour × String :=
  let kind := report.typeName.getD "unknown"
  if report.isValid then (.green, "✓ Valid " ++ kind ++ " diagram")
  else (.red, "✗ Invalid " ++ kind ++ " diagram (" ++ toString report.errors.length ++ " error(s))")

/-- The verdict, then errors and warnings, then hints below a heading of their own. -/
def render (report : Validation.Report) (suggestions : List String) (palette : Palette) : String :=
  let (colour, text) := verdict report
  let marked (colour : Colour) (mark text : String) := "  " ++ paint palette colour mark ++ " " ++ text
  let hints :=
    if suggestions.isEmpty then []
    else "" :: "Suggestions:" :: suggestions.map (marked .cyan "-")
  Text.joinLines <| [paint palette colour text] ++ report.errors.map (marked .red "error:") ++
    report.warnings.map (marked .yellow "warning:") ++ hints

end DiagramText.CommandLine
