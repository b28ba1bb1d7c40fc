import DiagramText.Reader

/-! Statements of state diagrams: declarations, transitions and descriptions. -/
namespace DiagramText.States

/-- The state that a diagram starts and ends in. -/
def terminal : String := "[*]"

inductive Pseudo where
  | choice
  | fork
  | join
deriving DecidableEq, Repr, Inhabited

namespace Pseudo

def all : List Pseudo := [.choice, .fork, .join]

def name : Pseudo → String
  | .choice => "choice"
  | .fork => "fork"
  | .join => "join"

def ofName? (s : String) : Option Pseudo := all.find? fun p => p.name = s

def reader : Reader Pseudo := do
  Reader.inlineBlanks1
  Reader.token "<<"
  let p ← Reader.oneOf (all.map fun p => (p.name, p))
  Reader.token ">>"
  pure p

end Pseudo

inductive Statement where
  | declare (id : String) (label : Option String) (pseudo : Option Pseudo) (opensBlock : Bool)
  | close
  | transition (source target : String) (label : Option String)
  | describe (id description : String)
deriving DecidableEq, Repr

def stateRef : Reader String := (Reader.token terminal *> pure terminal) <|> Reader.identifier

/-- A quoted label and the id that it is given to. -/
def labelled : Reader (String × Option String) := do
  let label ← Reader.quoted
  Reader.inlineBlanks1
  Reader.token "as"
  Reader.inlineBlanks1
  let id ← Reader.identifier
  pure (id, some label)

def declare : Reader Statement := do
  Reader.token "state"
  Reader.inlineBlanks1
  let (id, label) ← labelled <|> (fun id => (id, none)) <$> Reader.identifier
  let pseudo ← optional Pseudo.reader
  let block ← optional (Reader.inlineBlanks *> Reader.token "\x7b")
  Reader.atEnd
  pure (.declare id label pseudo block.isSome)

def transition : Reader Statement := do
  let source ← stateRef
  Reader.inlineBlanks
  Reader.token "-->"
  Reader.inlineBlanks
  let target ← stateRef
  let label ← Reader.colonLabel
  Reader.atEnd
  pure (.transition source target label)

def describe : Reader Statement := do
  let id ← Reader.identifier
  Reader.inlineBlanks
  Reader.token ":"
  let description ← Reader.restTrimmed
  pure (.describe id description)

def statement : Reader Statement := Reader.firstOf [
  declare,
  Reader.token "\x7d" *> Reader.atEnd *> pure .close,
  transition,
  describe]

/-- The statement that a line is, blanks at its ends aside. -/
def Statement.ofText? (cs : List Char) : Option Statement := statement.whole? (Text.trim cs)

end DiagramText.States
