import DiagramText.Proofs.Reading
import DiagramText.Proofs.Source
import Mathlib.Logic.Relation

/-! The layout of source. Blank lines and comments may be put between the lines of a source, blanks at
the ends of its lines, and line breaks of two characters in place of those of one: the same header, body
and title are taken out of it, and so the same diagram is read. -/
namespace DiagramText
namespace Source

variable {before line after pad cs : List Char}

/-! ### Changes of the layout -/

/-- Where a line starts: at the start of a text and behind every line break. -/
def StartsLine (before : List Char) : Prop := before = [] ∨ ['\n'] <:+ before

instance : Decidable (StartsLine before) := inferInstanceAs (Decidable (_ ∨ _))

/-- Where a line ends: at the end of a text and before every line break, of one character or two. -/
def EndsLine (after : List Char) : Prop := after = [] ∨ ['\n'] <+: after ∨ ['\r', '\n'] <+: after

instance : Decidable (EndsLine after) := inferInstanceAs (Decidable (_ ∨ _ ∨ _))

/-- Blanks that break no line. -/
def IsPadding (pad : List Char) : Prop := ∀ c ∈ pad, Text.isBlank c ∧ c ≠ '\n'

theorem isPadding_iff : IsPadding pad ↔ pad.all fun c => Text.isBlank c && c != '\n' := by
  simp [IsPadding]

instance : Decidable (IsPadding pad) := decidable_of_iff' _ isPadding_iff

/-- A line that says nothing: it is blank, or a comment that is no title. -/
structure IsGap (line : List Char) : Prop where
  unbroken : '\n' ∉ line
  silent : Text.trim line = [] ∨
    ∃ comment, Text.trim line = commentMark ++ comment ∧ ¬ titleMark <+: Text.trim comment

/-- One change of the layout of a text. -/
inductive Shifted : List Char → List Char → Prop where
  /-- A line is put before another one. -/
  | insert {before line after : List Char} (starts : StartsLine before) (gap : IsGap line) :
    Shifted (before ++ after) (before ++ (line ++ '\n' :: after))
  /-- A line is put behind the last one. -/
  | append {text line : List Char} (gap : IsGap line) : Shifted text (text ++ '\n' :: line)
  /-- A line is put behind the line break at the end, and has none of its own. -/
  | finish {text line : List Char} (starts : StartsLine text) (gap : IsGap line) : Shifted text (text ++ line)
  | indent {before pad after : List Char} (starts : StartsLine before) (padding : IsPadding pad) :
    Shifted (before ++ after) (before ++ (pad ++ after))
  | trail {before pad after : List Char} (ends : EndsLine after) (padding : IsPadding pad) :
    Shifted (before ++ after) (before ++ (pad ++ after))
  | carriageReturn {before after : List Char} :
    Shifted (before ++ '\n' :: after) (before ++ '\r' :: '\n' :: after)

/-- A text whose layout is changed to that of another one, change by change. -/
def Respaced (text text' : String) : Prop := Relation.ReflTransGen Shifted text.toList text'.toList

/-! ### Lines and their ends -/

/-- The lines of a text, each of them trimmed. -/
def trimmedLines (cs : List Char) : List (List Char) := (Text.pieces '\n' cs).map Text.trim

theorem trimmedLines_append (before after : List Char) :
    trimmedLines (before ++ '\n' :: after) = trimmedLines before ++ trimmedLines after := by
  rw [trimmedLines, Text.pieces_append, List.map_append, trimmedLines, trimmedLines]

theorem trimmedLines_line (unbroken : '\n' ∉ line) : trimmedLines line = [Text.trim line] := by
  rw [trimmedLines, Text.pieces_eq_singleton unbroken, List.map_singleton]

theorem StartsLine.trimmedLines (starts : StartsLine before) :
    ∃ above, ∀ cs, trimmedLines (before ++ cs) = above ++ trimmedLines cs := by
  rcases starts with rfl | ⟨front, rfl⟩
  · exact ⟨[], fun cs => rfl⟩
  · refine ⟨Source.trimmedLines front, fun cs => ?_⟩
    rw [List.append_assoc, List.singleton_append, trimmedLines_append]

/-- Every text ends in a line. -/
theorem exists_startsLine (cs : List Char) :
    ∃ before line, cs = before ++ line ∧ StartsLine before ∧ '\n' ∉ line := by
  induction cs with
  | nil => exact ⟨[], [], rfl, .inl rfl, List.not_mem_nil⟩
  | cons c cs ih =>
    obtain ⟨before, line, rfl, starts, unbroken⟩ := ih
    rcases starts with rfl | starts
    · by_cases lineBreak : c = '\n'
      · exact ⟨[c], line, rfl, .inr (lineBreak ▸ List.suffix_refl _), unbroken⟩
      · refine ⟨[], c :: line, rfl, .inl rfl, ?_⟩
        rw [List.mem_cons, not_or]
        exact ⟨Ne.symm lineBreak, unbroken⟩
    · exact ⟨c :: before, line, rfl, .inr (starts.trans (List.suffix_cons ..)), unbroken⟩

theorem IsPadding.unbroken (padding : IsPadding pad) : '\n' ∉ pad := fun h => (padding _ h).2 rfl

theorem IsPadding.trimmedLines_append_left (padding : IsPadding pad) (cs : List Char) :
    trimmedLines (pad ++ cs) = trimmedLines cs :=
  Text.map_trim_pieces_append_left (fun c h => (padding c h).1) padding.unbroken cs

theorem IsPadding.trimmedLines_append_right (padding : IsPadding pad) (cs : List Char) :
    trimmedLines (cs ++ pad) = trimmedLines cs := by
  obtain ⟨before, line, rfl, starts, unbroken⟩ := exists_startsLine cs
  obtain ⟨above, split⟩ := starts.trimmedLines
  have padded : '\n' ∉ line ++ pad := by
    rw [List.mem_append, not_or]
    exact ⟨unbroken, padding.unbroken⟩
  rw [List.append_assoc, split, split, trimmedLines_line padded, trimmedLines_line unbroken,
    Text.trim_append_right fun c h => (padding c h).1]

/-- A carriage return before a line break makes no difference. -/
theorem trimmedLines_carriageReturn (before after : List Char) :
    trimmedLines (before ++ '\r' :: '\n' :: after) = trimmedLines before ++ trimmedLines after := by
  have padding : IsPadding ['\r'] := by decide
  have split : before ++ '\r' :: '\n' :: after = (before ++ ['\r']) ++ '\n' :: after := by simp
  rw [split, trimmedLines_append, padding.trimmedLines_append_right]

theorem EndsLine.trimmedLines (ends : EndsLine after) :
    ∃ below, ∀ cs, trimmedLines (cs ++ after) = trimmedLines cs ++ below := by
  rcases ends with rfl | ⟨rest, rfl⟩ | ⟨rest, rfl⟩
  · exact ⟨[], fun cs => by simp⟩
  · exact ⟨Source.trimmedLines rest, fun cs => trimmedLines_append cs rest⟩
  · exact ⟨Source.trimmedLines rest, fun cs => trimmedLines_carriageReturn cs rest⟩

/-! ### What is taken out of a text -/

/-- A line that says nothing leaves all that was taken as it is. -/
theorem IsGap.take (gap : IsGap line) (p : Parts) : p.take (Text.trim line) = p := by
  rcases gap.silent with blank | ⟨comment, marked, untitled⟩
  · rw [blank]
    rfl
  · have noTitle : titleOf? comment = none := by rw [titleOf?, Text.isPrefixOf?_eq_none_iff.2 untitled]
    rw [marked, Parts.take, if_neg (by simp [commentMark]), Text.isPrefixOf?_append]
    simp [noTitle]

/-- What is taken line by line stays the same under one change of the layout. -/
theorem Shifted.foldl_take {cs ds : List Char} (shifted : Shifted cs ds) (p : Parts) :
    (trimmedLines ds).foldl Parts.take p = (trimmedLines cs).foldl Parts.take p := by
  have past {line : List Char} (gap : IsGap line) (above below : List (List Char)) :
      (above ++ ([Text.trim line] ++ below)).foldl Parts.take p = (above ++ below).foldl Parts.take p := by
    rw [List.foldl_append, List.foldl_append, List.foldl_cons, List.foldl_nil, gap.take, List.foldl_append]
  cases shifted with
  | insert starts gap =>
    obtain ⟨above, split⟩ := starts.trimmedLines
    rw [split, split, trimmedLines_append, trimmedLines_line gap.unbroken, past gap]
  | append gap =>
    have last := past gap (trimmedLines cs) []
    rwa [List.append_nil, List.append_nil, ← trimmedLines_line gap.unbroken, ← trimmedLines_append] at last
  | @finish cs line starts gap =>
    obtain ⟨above, split⟩ := starts.trimmedLines
    have whole : trimmedLines cs = above ++ [[]] := by
      conv => lhs; rw [← List.append_nil cs, split]
      rfl
    have last := past gap above []
    rw [List.append_nil, List.append_nil] at last
    rw [split, whole, trimmedLines_line gap.unbroken, last, foldl_take_nil_append]
  | indent starts padding =>
    obtain ⟨above, split⟩ := starts.trimmedLines
    rw [split, split, padding.trimmedLines_append_left]
  | trail ends padding =>
    obtain ⟨below, split⟩ := ends.trimmedLines
    rw [← List.append_assoc, split, split, padding.trimmedLines_append_right]
  | carriageReturn => rw [trimmedLines_carriageReturn, trimmedLines_append]

theorem ofText?_of_respaced {text text' : String} (respaced : Respaced text text') :
    ofText? text' = ofText? text := by
  have taken {cs ds : List Char} (changes : Relation.ReflTransGen Shifted cs ds) :
      (trimmedLines ds).foldl Parts.take .empty = (trimmedLines cs).foldl Parts.take .empty := by
    induction changes with
    | refl => rfl
    | tail _ shifted ih => rw [shifted.foldl_take, ih]
  have same : parts text' = parts text := by
    rw [parts_eq_foldl_fragments, parts_eq_foldl_fragments]
    exact taken respaced
  rw [ofText?, ofText?, same]

end Source

/-- The layout of a source does not matter. However it is changed, the text is taken apart into the same
header, body and title, and every registry gives the same failure or reads the same diagram but for the
time of reading. -/
theorem parse_respaced {text text' : String} (respaced : Source.Respaced text text') (r : Registry)
    (now later : Instant) : Source.ofText? text' = Source.ofText? text ∧
      (r.parse now text').map (Diagram.retimed later) = r.parse later text := by
  have same := Source.ofText?_of_respaced respaced
  refine ⟨same, ?_⟩
  rw [Registry.map_retimed_parse, Registry.parse, same, Registry.parse]

def tightText : String := "erDiagram\nA \x7b\nx y\n\x7d"

/-- With a comment above the header and a carriage return behind it, a tab before the line of the block, and a
blank line below. -/
def airyText : String := "%%\nerDiagram\r\nA \x7b\n\tx y\n\x7d\n"

theorem parse_respaced_airy : Source.Respaced tightText airyText ∧
    Source.ofText? airyText = Source.ofText? tightText ∧
    ((Registry.full).parse .epoch airyText).map (Diagram.retimed .epoch) = (Registry.full).parse .epoch tightText := by
  have above : Source.Shifted tightText.toList "%%\nerDiagram\nA \x7b\nx y\n\x7d".toList :=
    @Source.Shifted.insert [] ['%', '%'] _ (.inl rfl) ⟨by decide, .inr ⟨[], by decide⟩⟩
  have returned : Source.Shifted _ "%%\nerDiagram\r\nA \x7b\nx y\n\x7d".toList :=
    @Source.Shifted.carriageReturn "%%\nerDiagram".toList "A \x7b\nx y\n\x7d".toList
  have indented : Source.Shifted _ "%%\nerDiagram\r\nA \x7b\n\tx y\n\x7d".toList :=
    @Source.Shifted.indent "%%\nerDiagram\r\nA \x7b\n".toList ['\t'] "x y\n\x7d".toList (by decide) (by decide)
  have below : Source.Shifted "%%\nerDiagram\r\nA \x7b\n\tx y\n\x7d".toList airyText.toList :=
    @Source.Shifted.append _ [] ⟨by decide, .inl rfl⟩
  have respaced : Source.Respaced tightText airyText :=
    .tail (.tail (.tail (.single above) returned) indented) below
  exact ⟨respaced, parse_respaced respaced .full .epoch .epoch⟩

end DiagramText
