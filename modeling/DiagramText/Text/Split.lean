import DiagramText.Text.Blank

/-! Cutting a text at separators and into lines. -/
namespace DiagramText.Text

/-- The text before and after the first `sep`. -/
def cut? (sep : Char) : List Char → Option (List Char × List Char)
  | [] => none
  | c :: cs =>
    if c = sep then some ([], cs)
    else (cut? sep cs).map fun (before, after) => (c :: before, after)

/-- All the pieces between separators; a text without any is one piece. -/
def pieces (sep : Char) : List Char → List (List Char)
  | [] => [[]]
  | c :: cs =>
    if c = sep then [] :: pieces sep cs
    else match pieces sep cs with
      | [] => [[c]]
      | p :: ps => (c :: p) :: ps

/-- One carriage return at the end belongs to the line break that follows it. -/
def dropReturn (line : List Char) : List Char :=
  if line.getLast? = some '\r' then line.dropLast else line

def linesOfPieces : List (List Char) → List (List Char)
  | [] => []
  | [last] => if last = [] then [] else [last]
  | p :: q :: ps => dropReturn p :: linesOfPieces (q :: ps)

/-- The lines of a text; a break at the very end starts no further line. -/
def lines (cs : List Char) : List (List Char) := linesOfPieces (pieces '\n' cs)

/-- Pieces between separators that stand outside double quotes. -/
def unquotedPieces (sep : Char) : Bool → List Char → List (List Char)
  | _, [] => [[]]
  | quoted, c :: cs =>
    if c = sep ∧ quoted = false then [] :: unquotedPieces sep quoted cs
    else match unquotedPieces sep (if c = '"' then !quoted else quoted) cs with
      | [] => [[c]]
      | p :: ps => (c :: p) :: ps

/-- Whether what follows a text is in quotes, when the text itself starts in quotes or not. -/
def quotedAfter (quoted : Bool) (cs : List Char) : Bool := cs.foldl (fun q c => if c = '"' then !q else q) quoted

/-- The word with every line joined by a line break. -/
def joinLines (lines : List String) : String := "\n".intercalate lines

theorem cut?_eq_some {sep : Char} {cs before after : List Char}
    (h : cut? sep cs = some (before, after)) : cs = before ++ sep :: after := by
  induction cs generalizing before with
  | nil => simp [cut?] at h
  | cons c cs ih =>
    by_cases hc : c = sep
    · simp [cut?, hc] at h; simp [h.1.symm, h.2, hc]
    · simp only [cut?, hc, if_false, Option.map_eq_some_iff, Prod.exists, Prod.mk.injEq] at h
      obtain ⟨b, a, h, rfl, rfl⟩ := h
      simp [ih h]

theorem not_mem_of_cut? {sep : Char} {cs before after : List Char}
    (h : cut? sep cs = some (before, after)) : sep ∉ before := by
  induction cs generalizing before with
  | nil => cases h
  | cons c cs ih =>
    rw [cut?] at h
    split at h
    · obtain ⟨rfl, -⟩ := Prod.mk.inj (Option.some.inj h)
      exact List.not_mem_nil
    · next other =>
      obtain ⟨⟨b, a⟩, found, same⟩ := Option.map_eq_some_iff.1 h
      obtain ⟨rfl, rfl⟩ := Prod.mk.inj same
      rw [List.mem_cons, not_or]
      exact ⟨Ne.symm other, ih found⟩

theorem cut?_append {sep : Char} {before : List Char} (free : sep ∉ before) (after : List Char) :
    cut? sep (before ++ sep :: after) = some (before, after) := by
  induction before with
  | nil => simp [cut?]
  | cons c before ih =>
    rw [List.mem_cons, not_or] at free
    simp [cut?, Ne.symm free.1, ih free.2]

theorem cut?_eq_none {sep : Char} {cs : List Char} (free : sep ∉ cs) : cut? sep cs = none := by
  cases found : cut? sep cs with
  | none => rfl
  | some p =>
    rw [cut?_eq_some found] at free
    simp at free

theorem not_mem_of_cut?_eq_none {sep : Char} {cs : List Char} (h : cut? sep cs = none) : sep ∉ cs := by
  intro there
  obtain ⟨before, after, rfl, free⟩ := List.eq_append_cons_of_mem there
  rw [cut?_append free] at h
  cases h

/-- What comes before a separator, or all of a text without one. -/
theorem getD_fst_cut? (sep : Char) (cs : List Char) :
    ((cut? sep cs).map (·.1)).getD cs = cs.takeWhile (· != sep) := by
  induction cs with
  | nil => rfl
  | cons c cs ih =>
    unfold cut?
    by_cases same : c = sep
    · simp [same]
    · rw [if_neg same, List.takeWhile_cons_of_pos (by simpa using same), ← ih]
      cases cut? sep cs <;> rfl

theorem takeWhile_eq_self_of_not_mem {sep : Char} {cs : List Char} (free : sep ∉ cs) :
    cs.takeWhile (· != sep) = cs := by
  rw [← getD_fst_cut?, cut?_eq_none free]
  rfl

theorem pieces_ne_nil (sep : Char) (cs : List Char) : pieces sep cs ≠ [] := by
  cases cs with
  | nil => simp [pieces]
  | cons c cs =>
    by_cases hc : c = sep
    · simp [pieces, hc]
    · simp only [pieces, hc, if_false]
      split <;> simp

theorem not_mem_of_mem_pieces {sep : Char} {cs p : List Char} (h : p ∈ pieces sep cs) : sep ∉ p := by
  induction cs generalizing p with
  | nil => simp [pieces] at h; simp [h]
  | cons c cs ih =>
    by_cases hc : c = sep
    · simp [pieces, hc] at h
      rcases h with rfl | h
      · simp
      · exact ih h
    · simp only [pieces, hc, if_false] at h
      split at h
      · simp at h; simp [h, Ne.symm hc]
      · next q qs hq =>
        rcases List.mem_cons.1 h with rfl | h
        · simpa [Ne.symm hc] using ih (hq ▸ List.mem_cons_self ..)
        · exact ih (hq ▸ List.mem_cons_of_mem _ h)

/-- Nothing is lost between the pieces but the separators. -/
theorem intercalate_pieces (sep : Char) (cs : List Char) :
    [sep].intercalate (pieces sep cs) = cs := by
  induction cs with
  | nil => simp [pieces]
  | cons c cs ih =>
    by_cases hc : c = sep
    · subst hc
      cases hp : pieces c cs with
      | nil => exact absurd hp (pieces_ne_nil c cs)
      | cons q qs => rw [hp] at ih; simp [pieces, hp, ih, List.intercalate_cons_cons]
    · simp only [pieces, hc, if_false]
      split
      · next h => exact absurd h (pieces_ne_nil sep cs)
      · next q qs h =>
        rw [h] at ih
        cases qs <;> simp_all [List.intercalate_cons_cons]

theorem length_pieces_le (sep : Char) (cs : List Char) : (pieces sep cs).length ≤ cs.length + 1 := by
  induction cs with
  | nil => simp [pieces]
  | cons c cs ih =>
    rw [pieces, List.length_cons]
    split
    · rw [List.length_cons]
      omega
    · split
      · rw [List.length_singleton]
        omega
      · next p ps split =>
        rw [split, List.length_cons] at ih
        rw [List.length_cons]
        omega

/-- A piece has no character that the text has not. -/
theorem mem_of_mem_pieces {sep c : Char} {cs p : List Char} (piece : p ∈ pieces sep cs) (h : c ∈ p) :
    c ∈ cs := by
  induction cs generalizing p with
  | nil =>
    rw [pieces, List.mem_singleton] at piece
    exact absurd h (piece ▸ List.not_mem_nil)
  | cons d cs ih =>
    rw [pieces] at piece
    split at piece
    · rcases List.mem_cons.1 piece with rfl | later
      · cases h
      · exact List.mem_cons_of_mem _ (ih later h)
    · split at piece
      · rw [List.mem_singleton] at piece
        exact List.mem_cons.2 (.inl (List.mem_singleton.1 (piece ▸ h)))
      · next q qs split =>
        rcases List.mem_cons.1 piece with rfl | later
        · exact List.mem_cons.2 ((List.mem_cons.1 h).imp_right (ih (split ▸ List.mem_cons_self ..)))
        · exact List.mem_cons_of_mem _ (ih (split ▸ List.mem_cons_of_mem _ later) h)

theorem pieces_eq_singleton {sep : Char} {cs : List Char} (free : sep ∉ cs) : pieces sep cs = [cs] := by
  induction cs with
  | nil => rfl
  | cons c cs ih =>
    rw [List.mem_cons, not_or] at free
    simp [pieces, Ne.symm free.1, ih free.2]

theorem pieces_cons {sep c : Char} (other : c ≠ sep) (cs : List Char) :
    pieces sep (c :: cs) = (pieces sep cs).modifyHead (c :: ·) := by
  rw [pieces, if_neg other]
  cases split : pieces sep cs with
  | nil => exact absurd split (pieces_ne_nil sep cs)
  | cons p ps => rfl

/-- The first piece is what comes before the first separator. -/
theorem pieces_eq_cons (sep : Char) (cs : List Char) :
    pieces sep cs = cs.takeWhile (· != sep) :: (pieces sep cs).tail := by
  induction cs with
  | nil => rfl
  | cons c cs ih =>
    by_cases same : c = sep
    · simp [pieces, same]
    · rw [pieces_cons same, ih, List.takeWhile_cons_of_pos (by simpa using same)]
      rfl

/-- A start without separators goes to the first piece. -/
theorem pieces_append_left {sep : Char} {start : List Char} (free : sep ∉ start) (cs : List Char) :
    pieces sep (start ++ cs) = (pieces sep cs).modifyHead (start ++ ·) := by
  induction start with
  | nil =>
    rw [List.nil_append]
    cases pieces sep cs <;> rfl
  | cons a start ih =>
    rw [List.mem_cons, not_or] at free
    rw [List.cons_append, pieces_cons (Ne.symm free.1), ih free.2]
    cases pieces sep cs <;> rfl

theorem pieces_append {sep : Char} (before after : List Char) :
    pieces sep (before ++ sep :: after) = pieces sep before ++ pieces sep after := by
  induction before with
  | nil => simp [pieces]
  | cons a before ih =>
    by_cases same : a = sep
    · simp [pieces, same, ih]
    · rw [List.cons_append, pieces_cons same, pieces_cons same, ih]
      cases split : pieces sep before with
      | nil => exact absurd split (pieces_ne_nil sep before)
      | cons p ps => rfl

/-- What holds of all characters of some texts, and of what is put between them. -/
theorem forall_mem_intercalate {P : Char → Prop} {between : List Char} {texts : List (List Char)}
    (sep : ∀ c ∈ between, P c) (each : ∀ text ∈ texts, ∀ c ∈ text, P c) :
    ∀ c ∈ between.intercalate texts, P c := by
  induction texts with
  | nil => simp
  | cons text texts ih =>
    rw [List.forall_mem_cons] at each
    cases texts with
    | nil => simpa using each.1
    | cons next texts =>
      rw [List.intercalate_cons_cons, List.forall_mem_append, List.forall_mem_append]
      exact ⟨⟨each.1, sep⟩, ih each.2⟩

/-- The pieces of joined texts are those of the texts. -/
theorem pieces_intercalate_flatMap {sep : Char} {texts : List (List Char)} (some : texts ≠ []) :
    pieces sep ([sep].intercalate texts) = texts.flatMap (pieces sep) := by
  induction texts with
  | nil => exact absurd rfl some
  | cons text texts ih =>
    cases texts with
    | nil => simp
    | cons next texts =>
      rw [List.intercalate_cons_cons, List.append_assoc, List.singleton_append, pieces_append,
        ih (List.cons_ne_nil _ _)]
      rfl

/-- Texts without the separator are the pieces of what they are joined to. -/
theorem pieces_intercalate {sep : Char} {ps : List (List Char)} (some : ps ≠ [])
    (free : ∀ p ∈ ps, sep ∉ p) : pieces sep ([sep].intercalate ps) = ps := by
  have whole : ps.map (pieces sep) = ps.map fun p => [p] :=
    List.map_congr_left fun p there => pieces_eq_singleton (free p there)
  rw [pieces_intercalate_flatMap some, List.flatMap_def, whole, ← List.flatMap_def, List.flatMap_singleton']

theorem pieces_joinLines_flatMap {texts : List String} (some : texts ≠ []) :
    pieces '\n' (joinLines texts).toList = texts.flatMap fun text => pieces '\n' text.toList := by
  have some' : texts.map String.toList ≠ [] := by simpa using some
  rw [joinLines, String.toList_intercalate]
  exact (pieces_intercalate_flatMap some').trans (List.flatMap_map ..)

theorem pieces_joinLines {texts : List String} (some : texts ≠ []) (free : ∀ t ∈ texts, '\n' ∉ t.toList) :
    pieces '\n' (joinLines texts).toList = texts.map String.toList := by
  rw [joinLines, String.toList_intercalate]
  exact pieces_intercalate (by simpa using some) (by simpa using free)

/-! ### Texts in one piece -/

variable {sep : Char} {cs rest : List Char}

theorem unquotedPieces_ne_nil {quoted : Bool} : unquotedPieces sep quoted cs ≠ [] := by
  cases cs with
  | nil => simp [unquotedPieces]
  | cons c cs =>
    rw [unquotedPieces]
    split
    · simp
    · split <;> simp

/-- A character that does not separate goes to the first piece. -/
theorem unquotedPieces_cons {c : Char} {quoted : Bool} (inside : ¬ (c = sep ∧ quoted = false)) :
    unquotedPieces sep quoted (c :: cs) =
      (unquotedPieces sep (if c = '"' then !quoted else quoted) cs).modifyHead (c :: ·) := by
  rw [unquotedPieces, if_neg inside]
  cases split : unquotedPieces sep (if c = '"' then !quoted else quoted) cs with
  | nil => exact absurd split unquotedPieces_ne_nil
  | cons p ps => rfl

theorem unquotedPieces_append {quoted : Bool} (plain : ∀ c ∈ cs, c ≠ sep ∧ c ≠ '"')
    (whole : unquotedPieces sep quoted rest = [rest]) :
    unquotedPieces sep quoted (cs ++ rest) = [cs ++ rest] := by
  induction cs with
  | nil => exact whole
  | cons c cs ih =>
    rw [List.forall_mem_cons] at plain
    rw [List.cons_append, unquotedPieces, if_neg fun h => plain.1.1 h.1, if_neg plain.1.2, ih plain.2]

theorem unquotedPieces_eq_singleton (free : sep ∉ cs) (quoted : Bool) : unquotedPieces sep quoted cs = [cs] := by
  induction cs generalizing quoted with
  | nil => rfl
  | cons c cs ih =>
    rw [List.mem_cons, not_or] at free
    rw [unquotedPieces, if_neg fun h => free.1 h.1.symm, ih free.2]

/-- Between quotes a separator does not count. -/
theorem unquotedPieces_append_quoted (free : '"' ∉ cs) (whole : unquotedPieces sep true rest = [rest]) :
    unquotedPieces sep true (cs ++ rest) = [cs ++ rest] := by
  induction cs with
  | nil => exact whole
  | cons c cs ih =>
    rw [List.mem_cons, not_or] at free
    rw [List.cons_append, unquotedPieces, if_neg (by simp), if_neg (Ne.symm free.1), ih free.2]

theorem unquotedPieces_quote {quoted : Bool} (other : sep ≠ '"')
    (whole : unquotedPieces sep (!quoted) rest = [rest]) :
    unquotedPieces sep quoted ('"' :: rest) = ['"' :: rest] := by
  rw [unquotedPieces, if_neg fun h => other h.1.symm, if_pos rfl, whole]

/-- What starts a text in one piece is in one piece. -/
theorem unquotedPieces_left {quoted : Bool} (whole : unquotedPieces sep quoted (cs ++ rest) = [cs ++ rest]) :
    unquotedPieces sep quoted cs = [cs] := by
  induction cs generalizing quoted with
  | nil => rfl
  | cons c cs ih =>
    rw [List.cons_append, unquotedPieces] at whole
    rw [unquotedPieces]
    split at whole
    · cases (List.cons.inj whole).1
    · next inside =>
      rw [if_neg inside]
      split at whole
      · next none =>
        obtain ⟨rfl, rfl⟩ : cs = [] ∧ rest = [] := by simpa using whole
        cases none
      · next p ps pieces =>
        obtain ⟨rfl, rfl⟩ : p = cs ++ rest ∧ ps = [] := by simpa using whole
        rw [ih pieces]

/-- A separator outside of quotes counts, wherever it stands. -/
theorem unquotedPieces_append_separator {quoted : Bool} (other : sep ≠ '"') (outside : quotedAfter quoted cs = false) :
    unquotedPieces sep quoted (cs ++ sep :: rest) = unquotedPieces sep quoted cs ++ unquotedPieces sep false rest := by
  induction cs generalizing quoted with
  | nil =>
    obtain rfl : quoted = false := outside
    simp [unquotedPieces]
  | cons c cs ih =>
    have later :
        unquotedPieces sep (if c = '"' then !quoted else quoted) (cs ++ sep :: rest) =
          unquotedPieces sep (if c = '"' then !quoted else quoted) cs ++ unquotedPieces sep false rest :=
      ih outside
    by_cases separates : c = sep ∧ quoted = false
    · have unmarked : c ≠ '"' := fun quote => other (separates.1 ▸ quote)
      rw [if_neg unmarked] at later
      rw [List.cons_append, unquotedPieces, if_pos separates, later, unquotedPieces, if_pos separates]
      rfl
    · rw [List.cons_append, unquotedPieces_cons separates, unquotedPieces_cons separates, later]
      cases split : unquotedPieces sep (if c = '"' then !quoted else quoted) cs with
      | nil => exact absurd split unquotedPieces_ne_nil
      | cons p ps => rfl

/-- Without quotes every separator counts. -/
theorem unquotedPieces_eq_pieces (free : '"' ∉ cs) : unquotedPieces sep false cs = pieces sep cs := by
  induction cs with
  | nil => rfl
  | cons c cs ih =>
    rw [List.mem_cons, not_or] at free
    rw [unquotedPieces, pieces, if_neg (Ne.symm free.1), ih free.2]
    simp only [and_true]

/-- Outside quotes or not, a piece has no character that the text has not. -/
theorem mem_of_mem_unquotedPieces {c : Char} {p : List Char} {quoted : Bool}
    (piece : p ∈ unquotedPieces sep quoted cs) (h : c ∈ p) : c ∈ cs := by
  induction cs generalizing quoted p with
  | nil =>
    rw [unquotedPieces, List.mem_singleton] at piece
    exact absurd h (piece ▸ List.not_mem_nil)
  | cons d cs ih =>
    rw [unquotedPieces] at piece
    split at piece
    · rcases List.mem_cons.1 piece with rfl | later
      · cases h
      · exact List.mem_cons_of_mem _ (ih later h)
    · split at piece
      · rw [List.mem_singleton] at piece
        exact List.mem_cons.2 (.inl (List.mem_singleton.1 (piece ▸ h)))
      · next q qs split =>
        rcases List.mem_cons.1 piece with rfl | later
        · exact List.mem_cons.2 ((List.mem_cons.1 h).imp_right (ih (split ▸ List.mem_cons_self ..)))
        · exact List.mem_cons_of_mem _ (ih (split ▸ List.mem_cons_of_mem _ later) h)

/-! ### Lines -/

/-- No line has a break in it. -/
theorem not_mem_of_mem_lines {line : List Char} (h : line ∈ lines cs) : '\n' ∉ line := by
  have among (ps : List (List Char)) (free : ∀ p ∈ ps, '\n' ∉ p) : ∀ l ∈ linesOfPieces ps, '\n' ∉ l := by
    fun_induction linesOfPieces ps with
    | case1 => simp
    | case2 => simp
    | case3 => exact free
    | case4 p q ps ih =>
      rw [List.forall_mem_cons] at free
      have dropped : dropReturn p <+: p := by
        unfold dropReturn
        split
        · exact List.dropLast_prefix p
        · exact List.prefix_refl p
      rw [List.forall_mem_cons]
      exact ⟨fun within => free.1 (dropped.subset within), ih free.2⟩
  exact among _ (fun p piece => not_mem_of_mem_pieces piece) line h

theorem length_lines_le (cs : List Char) : (lines cs).length ≤ cs.length + 1 := by
  have fewer (ps : List (List Char)) : (linesOfPieces ps).length ≤ ps.length := by
    fun_induction linesOfPieces ps with
    | case1 => exact Nat.le_refl _
    | case2 => exact Nat.zero_le _
    | case3 => exact Nat.le_refl _
    | case4 p q ps ih => exact Nat.succ_le_succ ih
  exact Nat.le_trans (fewer _) (length_pieces_le _ _)

@[simp] theorem trim_dropReturn (line : List Char) : trim (dropReturn line) = trim line := by
  unfold dropReturn
  split
  · next h =>
    obtain ⟨rest, rfl⟩ := List.getLast?_eq_some_iff.1 h
    rw [List.dropLast_concat, trim_append_right]
    simp only [List.mem_singleton, forall_eq]
    decide
  · rfl

/-- Blanks at the ends aside, the lines are the pieces but for a blank one at the very end. -/
theorem map_trim_linesOfPieces (ps : List (List Char)) :
    ps.map trim = (linesOfPieces ps).map trim ∨ ps.map trim = (linesOfPieces ps).map trim ++ [[]] := by
  induction ps with
  | nil => exact .inl rfl
  | cons p ps ih =>
    cases ps with
    | nil =>
      by_cases h : p = []
      · simp [linesOfPieces, h]
      · simp [linesOfPieces, h]
    | cons q qs => simpa [linesOfPieces] using ih

/-- Blanks in front that break no line make no difference to the lines but at the ends. -/
theorem map_trim_pieces_append_left {bs : List Char} (blank : ∀ c ∈ bs, isBlank c) (free : '\n' ∉ bs)
    (cs : List Char) : (pieces '\n' (bs ++ cs)).map trim = (pieces '\n' cs).map trim := by
  rw [pieces_append_left free]
  cases pieces '\n' cs with
  | nil => rfl
  | cons p ps => simp [trim_append_left blank]

end DiagramText.Text
