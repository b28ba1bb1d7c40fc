import Mathlib.Data.List.Basic

/-! Starts of texts: what a text starts with, and what it cannot start with because of one character. -/
namespace DiagramText.Text

@[simp] theorem isPrefixOf?_append (start rest : List Char) :
    start.isPrefixOf? (start ++ rest) = some rest := List.isPrefixOf?_eq_some_iff_append_eq.2 rfl

theorem isPrefixOf?_eq_none_iff {start cs : List Char} :
    start.isPrefixOf? cs = none ↔ ¬ start <+: cs := by
  rw [← Option.not_isSome_iff_eq_none, List.isSome_isPrefixOf?_eq_isPrefixOf, List.isPrefixOf_iff_prefix]

/-- What is no start of a text may still start what the text is continued to; not if the next
character is another. -/
theorem not_prefix_append {p cs rest : List Char} {c : Char} (out : ¬ p <+: cs)
    (next : cs <+: p → (p.drop cs.length).head? ≠ some c) : ¬ p <+: cs ++ c :: rest := by
  intro starts
  rcases List.prefix_or_prefix_of_prefix starts (List.prefix_append cs (c :: rest)) with h | h
  · exact out h
  · have other := next h
    obtain ⟨more, rfl⟩ := h
    cases more with
    | nil => exact out (by simp)
    | cons d more =>
      rw [List.prefix_append_right_inj] at starts
      obtain ⟨rfl, -⟩ := List.cons_prefix_cons.1 starts
      exact other (by simp)

theorem not_prefix_of_first {p cs rest : List Char} (apart : p.head?.any fun c => cs.head?.any (c != ·)) :
    ¬ p <+: cs ++ rest := by
  rintro ⟨more, same⟩
  cases p with
  | nil => cases apart
  | cons c p =>
    cases cs with
    | nil => cases apart
    | cons d cs => simp_all

end DiagramText.Text
