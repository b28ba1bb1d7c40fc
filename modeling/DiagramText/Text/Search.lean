/-! Texts inside texts. -/
namespace DiagramText.Text

/-- Whether a text starts with another. -/
def startsWith (start cs : List Char) : Bool := start.isPrefixOf cs

/-- Whether a text stands anywhere inside another. -/
def occursIn (part : List Char) : List Char → Bool
  | [] => part.isEmpty
  | c :: cs => part.isPrefixOf (c :: cs) || occursIn part cs

theorem startsWith_iff {start cs : List Char} : startsWith start cs ↔ start <+: cs := by
  simp [startsWith]

theorem occursIn_iff {part cs : List Char} : occursIn part cs ↔ part <:+: cs := by
  induction cs with
  | nil => simp [occursIn]
  | cons c cs ih => simp [occursIn, ih, List.infix_cons_iff]

end DiagramText.Text
