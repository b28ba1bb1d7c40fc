import DiagramText.Proofs.Quoting
import DiagramText.Proofs.Reading

/-! Semicolons and line breaks. Both end a statement of a flowchart, but a semicolon does not within
quotes. So lines may be joined with semicolons, and taken apart at them, as long as every quote that is
opened on a line is closed on it. -/
namespace DiagramText.Flowchart

/-- A line on which every quote that is opened is closed. -/
def IsPaired (line : String) : Prop := Even (line.toList.count '"')

instance (line : String) : Decidable (IsPaired line) := inferInstanceAs (Decidable (Even _))

/-- Lines made one, with semicolons between them. -/
def joined (lines : List String) : String := ";".intercalate lines

theorem toList_joined_cons (line next : String) (lines : List String) :
    (joined (line :: next :: lines)).toList = line.toList ++ ';' :: (joined (next :: lines)).toList := by
  rw [joined, String.toList_intercalate, joined, String.toList_intercalate]
  simp [List.intercalate_cons_cons]

theorem statementTexts_append {before : List Char} (even : Even (before.count '"')) (after : List Char) :
    statementTexts (before ++ ';' :: after) = statementTexts before ++ statementTexts after := by
  have outside : Text.quotedAfter false before = false := by rw [Text.quotedAfter_eq, if_pos even]
  rw [statementTexts, Text.unquotedPieces_append_separator (by decide) outside, List.map_append,
    List.filter_append, statementTexts, statementTexts]

/-- The line that lines are joined to has their statements. -/
theorem statementTexts_joined {lines : List String} (paired : ∀ line ∈ lines, IsPaired line) :
    statementTexts (joined lines).toList = lines.flatMap fun line => statementTexts line.toList := by
  induction lines with
  | nil => rfl
  | cons line lines ih =>
    rw [List.forall_mem_cons] at paired
    rw [List.flatMap_cons]
    cases lines with
    | nil => simp [joined]
    | cons next lines => rw [toList_joined_cons, statementTexts_append paired.1, ih paired.2]

theorem statementsOf_joined {groups : List (List String)} (paired : ∀ line ∈ groups.flatten, IsPaired line) :
    statementsOf (groups.map joined) = statementsOf groups.flatten := by
  have texts : (groups.map joined).flatMap (fun line => statementTexts line.toList) =
      groups.flatten.flatMap fun line => statementTexts line.toList := by
    rw [List.flatMap_map, List.flatten_eq_flatMap, List.flatMap_assoc]
    refine List.flatMap_congr fun lines among => statementTexts_joined fun line there => ?_
    exact paired line (List.mem_flatten_of_mem among there)
  rw [statementsOf, texts, statementsOf]

/-- Lines that close their quotes say the same statements when they are joined with semicolons to one line,
or group by group to any number of lines; and they are read as the same graph but for the time of reading. -/
theorem read_regrouped {lines : List String} (paired : ∀ line ∈ lines, IsPaired line) (now later : Instant) :
    statementTexts (joined lines).toList = (lines.flatMap fun line => statementTexts line.toList) ∧
      (read now [joined lines]).retimed later = read later lines ∧
      ∀ groups : List (List String), groups.flatten = lines →
        (read now (groups.map joined)).retimed later = read later lines := by
  have regrouped (groups : List (List String)) (all : groups.flatten = lines) :
      (read now (groups.map joined)).retimed later = read later lines := by
    subst all
    have same : read later (groups.map joined) = read later groups.flatten := by
      unfold read
      rw [Draft.foldl_readLine, statementsOf_joined paired, ← Draft.foldl_readLine]
    rw [← same]
    exact Dialect.retimed_read .flowchart now later _
  exact ⟨statementTexts_joined paired, regrouped [lines] (by simp), regrouped⟩

/-- Quoted semicolons, a line of separators alone, and a subgraph that is opened on one line and closed on
another. -/
def separationSample : List String :=
  ["subgraph g; A[\"x;y\"] ", "; ;", "A -->|\"a;b\"| B;C", "", "end;D"]

theorem read_regrouped_sample : (∀ line ∈ separationSample, IsPaired line) ∧
    statementTexts "subgraph g; A[\"x;y\"] ;; ;;A -->|\"a;b\"| B;C;;end;D".toList =
      (separationSample.flatMap fun line => statementTexts line.toList) ∧
    (read .epoch ["subgraph g; A[\"x;y\"] ;; ;;A -->|\"a;b\"| B;C;;end;D"]).retimed .epoch =
      read .epoch separationSample ∧
    (read .epoch ["subgraph g; A[\"x;y\"] ;; ;", "A -->|\"a;b\"| B;C;;end;D"]).retimed .epoch =
      read .epoch separationSample := by
  have paired : ∀ line ∈ separationSample, IsPaired line := by decide +kernel
  have whole : joined separationSample = "subgraph g; A[\"x;y\"] ;; ;;A -->|\"a;b\"| B;C;;end;D" := by decide +kernel
  have halves : [separationSample.take 2, separationSample.drop 2].map joined =
      ["subgraph g; A[\"x;y\"] ;; ;", "A -->|\"a;b\"| B;C;;end;D"] := by decide +kernel
  obtain ⟨texts, line, groups⟩ := read_regrouped paired .epoch .epoch
  exact ⟨paired, whole ▸ texts, whole ▸ line, halves ▸ groups _ rfl⟩

/-- A quote that is closed on the next line only keeps the semicolon inside. -/
example : statementTexts (joined ["A[\"x", "y\"]"]).toList = ["A[\"x;y\"]".toList] := by decide +kernel

end DiagramText.Flowchart
