import DiagramText.Json.Document
import DiagramText.Validation.Bracket
import DiagramText.Validation.Declared

/-! Validation of source text, without reading it as a diagram: what is wrong with it, what could
be better, and how to mend it. Every fault is reported; none hides another. -/
namespace DiagramText.Validation

structure Rules where
  warnMissingDirection : Bool
  maxUnlabeled : Nat
  warnEmptyBody : Bool
deriving DecidableEq, Repr

namespace Rules

def usual : Rules := ⟨true, 10, true⟩

instance : Inhabited Rules := ⟨usual⟩

def toJson (r : Rules) : Json := .obj [
  ("warn_missing_direction", .bool r.warnMissingDirection),
  ("max_unlabeled_connections", .ofNat r.maxUnlabeled),
  ("warn_empty_body", .bool r.warnEmptyBody)]

open Json in
def decode [Document τ] : Decoder τ Rules := fun t => do
  let fs ← Decoder.fields ["warn_missing_direction", "max_unlabeled_connections", "warn_empty_body"] t
  let direction ← Decoder.defaulted fs "warn_missing_direction" usual.warnMissingDirection Decoder.bool
  let most ← Decoder.defaulted fs "max_unlabeled_connections" usual.maxUnlabeled Decoder.word
  let body ← Decoder.defaulted fs "warn_empty_body" usual.warnEmptyBody Decoder.bool
  pure ⟨direction, most, body⟩

end Rules

inductive Finding where
  | emptyDiagram
  | unknownType (line : Nat)
  | unmatched (found : Char) (line : Nat)
  | unclosed (expected : Char) (line : Nat)
deriving DecidableEq, Repr

namespace Finding

def line? : Finding → Option Nat
  | .emptyDiagram => none
  | .unknownType n => some n
  | .unmatched _ n => some n
  | .unclosed _ n => some n

def message : Finding → String
  | .emptyDiagram => "Empty diagram code"
  | .unknownType _ => "Unknown or invalid diagram type"
  | .unmatched found n =>
    "Unmatched closing bracket '" ++ found.toString ++ "' at line " ++ toString n
  | .unclosed expected n =>
    "Unclosed bracket opened at line " ++ toString n ++ ", expected '" ++ expected.toString ++ "'"

/-- How to mend it. -/
def suggestion : Finding → String
  | .emptyDiagram => "Start with a diagram type declaration such as \x60flowchart TD\x60"
  | .unknownType _ => "Begin the first line with a supported diagram type: " ++
    ", ".intercalate (Declared.keywords.map (·.1))
  | .unmatched found n => "Remove the stray '" ++ found.toString ++
    "' or add its opening bracket at line " ++ toString n
  | .unclosed expected n => "Add the missing '" ++ expected.toString ++
    "' for the bracket opened at line " ++ toString n

end Finding

/-- The part of a line in which brackets count. Cardinality markers of relationships, and the text
of messages and transitions, do not. -/
def scannable (declared : Option Declared) (line : List Char) : List Char :=
  match declared with
  | some .entities =>
    if Text.occursIn "--".toList line || Text.occursIn "..".toList line then
      ((Text.cut? ':' line).map (·.2)).getD []
    else line
  | some .sequence | some .states => ((Text.cut? ':' line).map (·.1)).getD line
  | _ => line

/-- Strays in the order of the text, then what is still open, the outermost first. -/
def bracketFindings (declared : Option Declared) (lines : List (Nat × List Char)) : List Finding :=
  let scanned := lines.map fun (n, line) => (n, scannable declared line)
  let b := scanLines (declared = some .flowchart) scanned
  b.strays.map (fun s => .unmatched s.found s.line) ++
    b.openings.reverse.map fun o => .unclosed o.closer o.line

/-- Tokens by which a line is taken for a connection. -/
def connectionTokens : List String :=
  ["-->", "---", "-.-", "==>", "===", "~~~", "->>", "->", "--|>", "..|>", "..>", "--"]

def isUnlabeled (line : List Char) : Bool :=
  connectionTokens.any (fun t => Text.occursIn t.toList line) &&
    !line.contains '|' && !line.contains ':'

def lacksDirection (header : List Char) : Bool :=
  let declaration := (Text.pieces ';' header).headD []
  (Text.words declaration).length < 2

def hasBody (header : List Char) (body : List (Nat × List Char)) : Bool :=
  !body.isEmpty || ((Text.cut? ';' header).map fun (_, rest) => Text.trim rest != []).getD false

def warnings (rules : Rules) (declared : Option Declared) (header : List Char)
    (body : List (Nat × List Char)) : List String :=
  let unlabeled := (body.filter fun (_, line) => isUnlabeled line).length
  (if rules.warnMissingDirection && declared = some .flowchart && lacksDirection header then
    ["Flowchart has no direction (TD, LR, RL, BT); TD is assumed"] else []) ++
  (if rules.warnEmptyBody && declared.isSome && !hasBody header body then
    ["Diagram declares a type but has no content"] else []) ++
  (if rules.maxUnlabeled < unlabeled then
    [toString unlabeled ++ " connections have no label; consider labeling them"] else [])

/-- What a scan of a text gives. -/
structure Scan where
  findings : List Finding
  warnings : List String
  declared : Option Declared
deriving DecidableEq, Repr

def scan (rules : Rules) (text : String) : Scan :=
  match statementLines text with
  | [] => ⟨[.emptyDiagram], [], none⟩
  | (n, header) :: body =>
    let declared := Declared.ofLine? header
    let unknown := if declared.isNone then [.unknownType n] else []
    ⟨unknown ++ bracketFindings declared ((n, header) :: body),
      Validation.warnings rules declared header body, declared⟩

structure Report where
  isValid : Bool
  errors : List String
  warnings : List String
  /-- The errors by the numbers of their lines, ascending. -/
  lineErrors : List (Nat × List String)
  typeName : Option String
deriving DecidableEq, Repr

/-- Adds a message under a number and keeps the numbers ascending. -/
def fileUnder (n : Nat) (message : String) : List (Nat × List String) → List (Nat × List String)
  | [] => [(n, [message])]
  | (m, ms) :: rest =>
    if n < m then (n, [message]) :: (m, ms) :: rest
    else if n = m then (m, ms ++ [message]) :: rest
    else (m, ms) :: fileUnder n message rest

def byLine (findings : List Finding) : List (Nat × List String) :=
  findings.foldl (fun groups f =>
    match f.line? with
    | some n => fileUnder n f.message groups
    | none => groups) []

def Scan.report (s : Scan) : Report where
  isValid := s.findings.isEmpty
  errors := s.findings.map Finding.message
  warnings := s.warnings
  lineErrors := byLine s.findings
  typeName := s.declared.map Declared.name

def validate (rules : Rules) (text : String) : Report := (scan rules text).report

/-- A hint for every error, none of them twice. -/
def suggestions (rules : Rules) (text : String) : List String :=
  (scan rules text).findings.foldl (fun hints f =>
    if hints.contains f.suggestion then hints else hints ++ [f.suggestion]) []

/-- A letter or an underscore, and then letters, digits and underscores, all of them ASCII. -/
def isPlainId (id : String) : Bool :=
  match id.toList with
  | c :: cs => (c.isAlpha || c == '_') && cs.all fun c => c.isAlphanum || c == '_'
  | [] => false

def Report.toJson (r : Report) : Json := .obj [
  ("is_valid", .bool r.isValid),
  ("errors", .ofStrings r.errors),
  ("warnings", .ofStrings r.warnings),
  ("line_errors", .obj (r.lineErrors.map fun (n, messages) => (toString n, .ofStrings messages))),
  ("diagram_type", .ofOption .str r.typeName)]

end DiagramText.Validation
