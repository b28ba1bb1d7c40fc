import DiagramText.Text.Alphanumeric

/-! The bracket scan. Brackets are matched over all lines with one stack; text in double quotes
does not count. Flowcharts have two rules more: text between bars is an edge label, and `>` right
behind an id opens a shape that `]` closes. Both hold only where no bracket of the line is open. -/
namespace DiagramText.Validation

/-- An open bracket: what closes it, and the line that it is on. -/
structure Opening where
  closer : Char
  line : Nat
deriving DecidableEq, Repr

/-- A closing bracket that nothing on top of the stack waits for. -/
structure Stray where
  found : Char
  line : Nat
deriving DecidableEq, Repr

/-- The stack, the innermost bracket first, and the strays so far. -/
structure Brackets where
  openings : List Opening
  strays : List Stray
deriving DecidableEq, Repr

def Brackets.empty : Brackets := ⟨[], []⟩

def closerOf? : Char → Option Char
  | '[' => some ']'
  | '(' => some ')'
  | '\x7b' => some '\x7d'
  | _ => none

def isCloser (c : Char) : Bool := c == ']' || c == ')' || c == '\x7d'

namespace Brackets

def push (b : Brackets) (closer : Char) (line : Nat) : Brackets :=
  { b with openings := ⟨closer, line⟩ :: b.openings }

/-- A closing bracket takes off the top if that is what it closes, and is a stray otherwise. -/
def close (b : Brackets) (c : Char) (line : Nat) : Brackets :=
  match b.openings with
  | o :: rest =>
    if o.closer = c then { b with openings := rest }
    else { b with strays := b.strays ++ [⟨c, line⟩] }
  | [] => { b with strays := b.strays ++ [⟨c, line⟩] }

end Brackets

/-- The scan within one line. -/
structure Cursor where
  brackets : Brackets
  quoted : Bool
  inEdgeLabel : Bool
  previous : Option Char
deriving DecidableEq, Repr

/-- What is fixed while a line is scanned: whether it is flowchart source, its number, and how many
brackets were open where it starts. -/
structure LineContext where
  flowchart : Bool
  line : Nat
  depth : Nat

namespace Cursor

def start (b : Brackets) : Cursor := ⟨b, false, false, none⟩

def atDepth (k : LineContext) (s : Cursor) : Bool := s.brackets.openings.length = k.depth

/-- The previous character could end an id. -/
def behindId (s : Cursor) : Bool := (s.previous.map Text.isWordChar).getD false

def step (k : LineContext) (s : Cursor) (c : Char) : Cursor :=
  let s' := { s with previous := some c }
  if c = '"' then { s' with quoted := !s.quoted }
  else if s.quoted then s'
  else if c = '|' ∧ k.flowchart ∧ s.atDepth k then { s' with inEdgeLabel := !s.inEdgeLabel }
  else if s.inEdgeLabel then s'
  else match closerOf? c with
    | some closer => { s' with brackets := s.brackets.push closer k.line }
    | none =>
      if c = '>' ∧ k.flowchart ∧ s.atDepth k ∧ s.behindId then
        { s' with brackets := s.brackets.push ']' k.line }
      else if isCloser c then { s' with brackets := s.brackets.close c k.line }
      else s'

end Cursor

/-- Scans one line; quotes and edge labels end with it. -/
def scanLine (flowchart : Bool) (b : Brackets) (line : Nat) (cs : List Char) : Brackets :=
  (cs.foldl (Cursor.step ⟨flowchart, line, b.openings.length⟩) (.start b)).brackets

def scanLines (flowchart : Bool) (lines : List (Nat × List Char)) : Brackets :=
  lines.foldl (fun b (n, cs) => scanLine flowchart b n cs) .empty

end DiagramText.Validation
