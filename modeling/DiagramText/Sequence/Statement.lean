import DiagramText.Reader

/-! Statements of sequence diagrams: participants, the messages between them, and notes. -/
namespace DiagramText.Sequence

inductive Arrow where
  | async
  | sync
  | dottedCross
  | dotted
  | cross
  | solid
deriving DecidableEq, Repr, Inhabited

namespace Arrow

/-- Every arrow; a token comes before those that start it. -/
def all : List Arrow := [.async, .sync, .dottedCross, .dotted, .cross, .solid]

def token : Arrow → String
  | .async => "-->>"
  | .sync => "->>"
  | .dottedCross => "--x"
  | .dotted => "-->"
  | .cross => "-x"
  | .solid => "->"

/-- The kind of connection that an arrow draws. -/
def key : Arrow → String
  | .async => "async"
  | .sync => "sync"
  | .dottedCross => "dotted_cross"
  | .dotted => "dotted"
  | .cross => "cross"
  | .solid => "solid"

def ofToken? (token : String) : Option Arrow := all.find? fun a => a.token = token
def ofKey? (key : String) : Option Arrow := all.find? fun a => a.key = key

/-- Messages of an unknown kind are synchronous. -/
def ofKey (key : String) : Arrow := (ofKey? key).getD .sync
def ofToken (token : String) : Arrow := (ofToken? token).getD .sync

def reader : Reader Arrow := Reader.oneOf (all.map fun a => (a.token, a))

end Arrow

inductive Role where
  | participant
  | actor
deriving DecidableEq, Repr, Inhabited

namespace Role

def keyword : Role → String
  | .participant => "participant"
  | .actor => "actor"

/-- Whoever is not called an actor is a participant. -/
def ofKeyword (s : Option String) : Role := if s = some "actor" then .actor else .participant

def reader : Reader Role := Reader.oneOf ([participant, actor].map fun r => (r.keyword, r))

end Role

/-- Where a note stands. -/
inductive Placement where
  | leftOf
  | rightOf
  | across
deriving DecidableEq, Repr, Inhabited

namespace Placement

def text : Placement → String
  | .leftOf => "left of"
  | .rightOf => "right of"
  | .across => "over"

/-- What is neither left nor right stands across. -/
def ofText (s : Option String) : Placement :=
  if s = some "left of" then .leftOf else if s = some "right of" then .rightOf else .across

def reader : Reader Placement := Reader.oneOf ([leftOf, rightOf, across].map fun p => (p.text, p))

end Placement

inductive Statement where
  | participant (id : String) (label : Option String) (role : Role)
  | message (source target : String) (arrow : Arrow) (label : Option String)
  | note (placement : Placement) (participants : List String) (text : String)
deriving DecidableEq, Repr

/-- The name that a participant is shown under. -/
def shownAs : Reader String := do
  Reader.inlineBlanks1
  Reader.token "as"
  Reader.inlineBlanks1
  Reader.restTrimmed

def participant : Reader Statement := do
  let role ← Role.reader
  Reader.inlineBlanks1
  let id ← Reader.identifier
  let label ← optional shownAs
  Reader.inlineBlanks
  Reader.atEnd
  pure (.participant id (label.bind Reader.nonEmpty) role)

def comma : Reader Unit := Reader.inlineBlanks *> Reader.token "," *> Reader.inlineBlanks

def note : Reader Statement := do
  Reader.oneOf [("Note", ()), ("note", ())]
  Reader.inlineBlanks1
  let placement ← Placement.reader
  Reader.inlineBlanks1
  let participants ← Reader.sepBy1 Reader.identifier comma
  Reader.inlineBlanks
  Reader.token ":"
  let text ← Reader.restTrimmed
  pure (.note placement participants text)

def message : Reader Statement := do
  let source ← Reader.identifier
  Reader.inlineBlanks
  let arrow ← Arrow.reader
  Reader.inlineBlanks
  let target ← Reader.identifier
  let label ← Reader.colonLabel
  Reader.atEnd
  pure (.message source target arrow label)

def statement : Reader Statement := Reader.firstOf [participant, note, message]

/-- The statement that a line is, blanks at its ends aside. -/
def Statement.ofText? (cs : List Char) : Option Statement := statement.whole? (Text.trim cs)

end DiagramText.Sequence
