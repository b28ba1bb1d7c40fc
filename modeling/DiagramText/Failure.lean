import DiagramText.Diagram.Kinds

/-! What can go wrong with a whole text, and the words for it. A statement that makes no sense is
no failure: readers pass over it. -/
namespace DiagramText

inductive Failure where
  | unknownDialect (found : String)
  | emptySource
  | noPrinter (dialect : Dialect)
  | dangling (connections : List String)
  | malformed
  | io (reason : String)
deriving DecidableEq, Repr

def Failure.message : Failure → String
  | .unknownDialect found => "Unknown diagram type: " ++ found
  | .emptySource => "Empty diagram code"
  | .noPrinter dialect => "No generator registered for " ++ dialect.name ++ " diagrams"
  | .dangling connections =>
    "Connections reference missing elements: " ++ ", ".intercalate connections
  | .malformed => "Serialization error: the text is no diagram in the exchange format"
  | .io reason => "IO error: " ++ reason

end DiagramText
