import DiagramText.Proofs.Classes.Formatting
import DiagramText.Proofs.Entities.Formatting
import DiagramText.Proofs.Flowchart.RoundTrip
import DiagramText.Proofs.Sequence.Formatting
import DiagramText.Proofs.States.Formatting

/-! What is printed, apart from its layout. In every dialect that is a header and a list of statements,
each of them at a depth. A layout adds only the title and the blanks in front. -/
namespace DiagramText

/-- A statement at the depth at which it is printed. -/
structure Placed where
  depth : Nat
  text : String
deriving DecidableEq, Repr

def Layout.line (l : Layout) (p : Placed) : String := l.indented p.depth p.text

namespace Placed

variable {head : String} {body : List String}

/-- A head with a body between braces; without a body there are no braces. -/
def block (head : String) : List String → List Placed
  | [] => [⟨1, head⟩]
  | body => [⟨1, head ++ " \x7b"⟩] ++ body.map (⟨2, ·⟩) ++ [⟨1, "\x7d"⟩]

/-- What holds of the head, of the members and of the braces holds of the block. -/
theorem forall_block {P : String → Prop} (alone : P head) (opens : P (head ++ " \x7b"))
    (members : ∀ text ∈ body, P text) (closes : P "\x7d") : ∀ p ∈ block head body, P p.text := by
  cases body with
  | nil => exact List.forall_mem_singleton.2 alone
  | cons text texts =>
    simp only [block, List.forall_mem_append, List.forall_mem_singleton, List.forall_mem_map]
    exact ⟨⟨opens, members⟩, closes⟩

end Placed

namespace Flowchart

def placedItem : Outline.Item → Placed
  | .leaf e depth => ⟨depth, nodeText e⟩
  | .opens e depth => ⟨depth, groupText e⟩
  | .closes depth => ⟨depth, "end"⟩

def statements (g : Graph) : List Placed :=
  (Outline.ofElements g.elements fun _ => false).map placedItem ++
    g.connections.values.map (fun c => ⟨1, edgeText c⟩) ++
    (styled g.elements.values).map fun e => ⟨1, styleText e⟩

theorem print_eq (l : Layout) (g : Graph) (m : Metadata) : print l g m =
    l.source (headerText (m.direction.getD l.defaultDirection)) m ((statements g).map l.line) := by
  have items : itemLine l = l.line ∘ placedItem := by
    funext item
    cases item <;> rfl
  rw [print, statements, items]
  simp only [List.map_append, List.map_map]
  rfl

end Flowchart

namespace Sequence

/-- The texts of messages and notes in the order of their numbers. -/
def stepTexts (g : Graph) : List String :=
  ((steps g).mergeSort fun a b => a.1 ≤ b.1).filterMap (·.2)

def statements (g : Graph) : List Placed :=
  (g.elements.values.filter fun e => e.kind ≠ .note).map (fun e => ⟨1, declarationText e⟩) ++
    (stepTexts g).map (⟨1, ·⟩)

theorem print_eq (l : Layout) (g : Graph) (m : Metadata) :
    print l g m = l.source "sequenceDiagram" m ((statements g).map l.line) := by
  rw [print, statements, stepTexts]
  simp only [List.map_append, List.map_map]
  rfl

end Sequence

namespace Classes

def statements (g : Graph) : List Placed :=
  g.elements.values.flatMap (fun e => Placed.block (headText e) (bodyTexts e)) ++
    g.connections.values.map fun c => ⟨1, relationText c⟩

theorem classLines_eq (l : Layout) :
    classLines l = fun e => (Placed.block (headText e) (bodyTexts e)).map l.line := by
  funext e
  unfold classLines Placed.block
  cases bodyTexts e with
  | nil => rfl
  | cons text texts => simp [Layout.line]

theorem print_eq (l : Layout) (g : Graph) (m : Metadata) :
    print l g m = l.source "classDiagram" m ((statements g).map l.line) := by
  simp only [print, statements, List.map_append, List.map_flatMap, List.map_map, classLines_eq]
  rfl

end Classes

namespace States

def placedItem : Outline.Item → Placed
  | .leaf e depth => ⟨depth, declarationText e⟩
  | .opens e depth => ⟨depth, declarationText e ++ " \x7b"⟩
  | .closes depth => ⟨depth, "\x7d"⟩

def statements (g : Graph) : List Placed :=
  (Outline.ofElements g.elements fun e => e.id = terminal).map placedItem ++
    g.connections.values.map fun c => ⟨1, transitionText c⟩

theorem print_eq (l : Layout) (g : Graph) (m : Metadata) :
    print l g m = l.source "stateDiagram-v2" m ((statements g).map l.line) := by
  have items : itemLine l = l.line ∘ placedItem := by
    funext item
    cases item <;> rfl
  rw [print, statements, items]
  simp only [List.map_append, List.map_map]
  rfl

end States

namespace Entities

def statements (g : Graph) : List Placed :=
  g.elements.values.flatMap (fun e => Placed.block e.id (attributeTexts e)) ++
    g.connections.values.map fun c => ⟨1, relationshipText c⟩

theorem entityLines_eq (l : Layout) :
    entityLines l = fun e => (Placed.block e.id (attributeTexts e)).map l.line := by
  funext e
  unfold entityLines Placed.block
  cases attributeTexts e with
  | nil => rfl
  | cons text texts => simp [Layout.line]

theorem print_eq (l : Layout) (g : Graph) (m : Metadata) :
    print l g m = l.source "erDiagram" m ((statements g).map l.line) := by
  simp only [print, statements, List.map_append, List.map_flatMap, List.map_map, entityLines_eq]
  rfl

end Entities

namespace Dialect

/-- The header that is printed. The layout has a say in the direction of a flowchart only. -/
def header (l : Layout) (m : Metadata) : Dialect → String
  | .flowchart => Flowchart.headerText (m.direction.getD l.defaultDirection)
  | .sequence => "sequenceDiagram"
  | .classes => "classDiagram"
  | .states => "stateDiagram-v2"
  | .entities => "erDiagram"

/-- The statements that are printed below the header and the title. -/
def statements : Dialect → Graph → List Placed
  | .flowchart => Flowchart.statements
  | .sequence => Sequence.statements
  | .classes => Classes.statements
  | .states => States.statements
  | .entities => Entities.statements

/-- A printed source is its header, its title and its statements. -/
theorem print_eq (t : Dialect) (l : Layout) (g : Graph) (m : Metadata) :
    t.print l g m = l.source (t.header l m) m ((t.statements g).map l.line) := by
  cases t with
  | flowchart => exact Flowchart.print_eq l g m
  | sequence => exact Sequence.print_eq l g m
  | classes => exact Classes.print_eq l g m
  | states => exact States.print_eq l g m
  | entities => exact Entities.print_eq l g m

theorem isHeader_header (t : Dialect) (l : Layout) (m : Metadata) : Source.IsHeader (t.header l m) := by
  cases t with
  | flowchart => exact Flowchart.isHeader_headerText _
  | sequence => exact Sequence.isHeader
  | classes => exact Classes.isHeader
  | states => exact States.isHeader
  | entities => exact Entities.isHeader

theorem dialectOf_header (t : Dialect) (l : Layout) (m : Metadata) :
    (Registry.full).dialectOf (t.header l m) = .ok t := by
  cases t with
  | flowchart => exact Flowchart.dialectOf_headerText _
  | sequence => exact Sequence.dialectOf_header
  | classes => exact Classes.dialectOf_header
  | states => exact States.dialectOf_header
  | entities => exact Entities.dialectOf_header

end Dialect
end DiagramText
