import DiagramText.Proofs.Reader.Results

/-! Texts cut short and texts that go on. What a reader takes off a text it takes off an excerpt as well,
as long as only what it left over is cut off. Where there is a choice, that needs more: an alternative that
refuses the text must refuse the excerpt too, or it would be taken there instead of a later one. -/
namespace DiagramText.Reader

variable {α β : Type} {r s : Reader α} {cs : List Char} {a : α}

/-- A reader that takes the same off a text that goes on. -/
def Extends (r : Reader α) : Prop :=
  ∀ cs a rest more, r cs = some (a, rest) → r (cs ++ more) = some (a, rest ++ more)

/-- A reader that refuses the start of every text that it refuses. -/
def Persists (r : Reader α) : Prop := ∀ cs more, Refuses r (cs ++ more) → Refuses r cs

/-- A reader that leaves the end of the text, and takes the same if the end of what it left is cut off. -/
structure Restricts (r : Reader α) : Prop where
  leaves : Leaves r
  excerpt : ∀ cs a rest more, r (cs ++ more) = some (a, rest ++ more) → r cs = some (a, rest)

/-! ### Texts that go on -/

theorem extends_pure (a : α) : Extends (pure a) := by
  intro cs b rest more taken
  obtain ⟨rfl, rfl⟩ := pure_eq_some taken
  exact Reads.pure _ _

theorem Extends.bind {f : α → Reader β} (first : Extends r) (next : ∀ a, Extends (f a)) : Extends (r >>= f) := by
  intro cs b rest more taken
  obtain ⟨a, mid, one, two⟩ := bind_eq_some taken
  exact Reads.bind (first cs a mid more one) (next a mid b rest more two)

theorem extends_token (s : String) : Extends (token s) := by
  intro cs u rest more taken
  rw [token_eq_some taken, List.append_assoc]
  exact reads_token s _

theorem Extends.persists (same : Extends r) : Persists r := by
  intro cs more refused
  cases taken : r cs with
  | none => exact taken
  | some p =>
    rw [Refuses, same cs p.1 p.2 more taken] at refused
    cases refused

theorem Extends.bind_persists {f : α → Reader β} (first : Extends r) (next : ∀ a, Persists (f a)) :
    Persists (r >>= f) := by
  intro cs more refused
  cases taken : r cs with
  | none => exact Refuses.bind taken f
  | some p =>
    have longer : Reads r (cs ++ more) p.1 (p.2 ++ more) := first cs p.1 p.2 more taken
    rw [Refuses, longer.bind_eq f] at refused
    have shorter : Reads r cs p.1 p.2 := taken
    exact shorter.refuses_bind (next p.1 p.2 more refused)

theorem Extends.seqRight_persists {s : Reader β} (first : Extends r) (second : Persists s) :
    Persists (r *> s) := by
  rw [seqRight_eq_bind]
  exact first.bind_persists fun _ => second

theorem Persists.map (persists : Persists r) (f : α → β) : Persists (f <$> r) := by
  intro cs more refused
  cases taken : r (cs ++ more) with
  | none => exact (persists cs more taken).map f
  | some p =>
    rw [Refuses, Reads.map taken f] at refused
    cases refused

theorem Persists.orElse (first : Persists r) (second : Persists s) : Persists (r <|> s) := by
  intro cs more refused
  cases taken : r (cs ++ more) with
  | none =>
    rw [Refuses, Refuses.orElse_eq taken s] at refused
    exact (first cs more taken).orElse_refuses (second cs more refused)
  | some p =>
    rw [Refuses, Reads.orElse taken] at refused
    cases refused

theorem persists_firstOf {rs : List (Reader α)} (each : ∀ r ∈ rs, Persists r) : Persists (firstOf rs) := by
  induction rs with
  | nil => exact fun _ _ _ => rfl
  | cons r rs ih =>
    rw [List.forall_mem_cons] at each
    exact each.1.orElse (ih each.2)

/-- A run of one character at least is refused where none starts. -/
theorem stops_of_refuses_run1 {p : Char → Bool} (refused : Refuses (run1 p) cs) : Stops p cs := by
  intro c first
  rw [← Bool.not_eq_true]
  intro inside
  obtain ⟨tail, rfl⟩ := List.head?_eq_some_iff.1 first
  have taken : Reads (run1 p) (c :: tail) _ _ := if_neg (by simp [inside])
  rw [Refuses, taken] at refused
  cases refused

theorem persists_run1 (p : Char → Bool) : Persists (run1 p) :=
  fun _ _ refused => refuses_run1 (stops_of_refuses_run1 refused).of_append

theorem persists_identifier : Persists identifier := (persists_run1 Text.isWordChar).map String.ofList

theorem stops_of_run {p : Char → Bool} {inside rest : List Char} (taken : run p cs = some (inside, rest)) :
    Stops p rest := by
  obtain ⟨-, rfl⟩ := Prod.mk.inj (Option.some.inj taken)
  intro c first
  have out := List.head?_dropWhile_not p cs
  rwa [first] at out

/-- A run is as long as before if it is ended by what has to come after it. -/
theorem extends_run_bind {p : Char → Bool} {f : List Char → Reader β} (next : ∀ inside, Extends (f inside))
    (some : ∀ inside, Refuses (f inside) []) : Extends (run p >>= f) := by
  intro cs b rest more taken
  obtain ⟨inside, mid, one, two⟩ := bind_eq_some taken
  obtain ⟨split, all⟩ := run_eq_some one
  have left : mid ≠ [] := by
    rintro rfl
    rw [some inside] at two
    cases two
  have run := reads_run all ((stops_of_run one).append_of_ne_nil left more)
  rw [← List.append_assoc, ← split] at run
  exact run.bind (next inside mid b rest more two)

theorem extends_quoted : Extends quoted :=
  (extends_token "\"").bind fun _ => extends_run_bind
    (fun inside => (extends_token "\"").bind fun _ => extends_pure (String.ofList (Text.decodeEntities inside)))
    fun _ => Refuses.bind (refuses_token (by decide)) _

/-! ### Texts cut short -/

theorem restricts_pure (a : α) : Restricts (pure a) where
  leaves := leaves_pure a
  excerpt cs b rest more taken := by
    obtain ⟨rfl, left⟩ := pure_eq_some taken
    rw [List.append_cancel_right left]
    exact Reads.pure a rest

/-- What is left in the end was left in between. -/
theorem Restricts.bind {f : α → Reader β} (first : Restricts r) (next : ∀ a, Restricts (f a)) :
    Restricts (r >>= f) where
  leaves := first.leaves.bind fun a => (next a).leaves
  excerpt cs b rest more taken := by
    obtain ⟨a, mid, one, two⟩ := bind_eq_some taken
    obtain ⟨between, rfl⟩ := (next a).leaves mid b _ two
    rw [← List.append_assoc] at one two
    exact Reads.bind (first.excerpt cs a _ more one) ((next a).excerpt _ b rest more two)

theorem Restricts.map (restricts : Restricts r) (f : α → β) : Restricts (f <$> r) := by
  rw [map_eq_pure_bind]
  exact restricts.bind fun a => restricts_pure (f a)

theorem Restricts.seqRight {s : Reader β} (first : Restricts r) (second : Restricts s) : Restricts (r *> s) := by
  rw [seqRight_eq_bind]
  exact first.bind fun _ => second

theorem Restricts.seqLeft {s : Reader β} (first : Restricts r) (second : Restricts s) : Restricts (r <* s) := by
  rw [seqLeft_eq_bind]
  exact first.bind fun a => second.bind fun _ => restricts_pure a

theorem Restricts.orElse (first : Restricts r) (persists : Persists r) (second : Restricts s) :
    Restricts (r <|> s) where
  leaves := first.leaves.orElse second.leaves
  excerpt cs a rest more taken := by
    cases one : r (cs ++ more) with
    | some p =>
      rw [show (r <|> s) (cs ++ more) = some p from Reads.orElse one] at taken
      exact Reads.orElse (first.excerpt cs a rest more (one.trans taken))
    | none =>
      rw [Refuses.orElse_eq one s] at taken
      exact Refuses.orElse (persists cs more one) (second.excerpt cs a rest more taken)

theorem Restricts.optional (restricts : Restricts r) (persists : Persists r) : Restricts (optional r) :=
  (restricts.map some).orElse (persists.map some) (restricts_pure none)

theorem restricts_firstOf {rs : List (Reader α)} (each : ∀ r ∈ rs, Restricts r ∧ Persists r) :
    Restricts (firstOf rs) := by
  induction rs with
  | nil => exact ⟨fun _ _ _ taken => (nomatch taken), fun _ _ _ _ taken => nomatch taken⟩
  | cons r rs ih =>
    rw [List.forall_mem_cons] at each
    exact each.1.1.orElse each.1.2 (ih each.2)

/-- What may be there is not read in an excerpt either, if what is read without it cannot start with it. -/
theorem restricts_optional_bind {f : Option α → Reader β} (first : Restricts r) (next : ∀ o, Restricts (f o))
    (apart : ∀ cs b rest more, f none (cs ++ more) = some (b, rest ++ more) → Refuses r cs) :
    Restricts (optional r >>= f) where
  leaves := first.leaves.optional.bind fun o => (next o).leaves
  excerpt cs b rest more taken := by
    obtain ⟨o, mid, one, two⟩ := bind_eq_some taken
    rcases optional_eq_some one with ⟨a, rfl, there⟩ | ⟨rfl, rfl⟩
    · obtain ⟨between, rfl⟩ := (next (some a)).leaves mid b _ two
      rw [← List.append_assoc] at there two
      exact (Reads.optional (first.excerpt cs a _ more there)).bind ((next (some a)).excerpt _ b rest more two)
    · exact (apart cs b rest more two).optional.bind ((next none).excerpt cs b rest more two)

theorem restricts_token (s : String) : Restricts (token s) where
  leaves := leaves_token s
  excerpt cs u rest more taken := by
    have split := token_eq_some taken
    rw [← List.append_assoc] at split
    rw [List.append_cancel_right split]
    exact reads_token s rest

theorem restricts_oneOf (table : List (String × α)) : Restricts (oneOf table) := by
  induction table with
  | nil => exact ⟨leaves_oneOf [], fun _ _ _ _ taken => nomatch taken⟩
  | cons p table ih =>
    exact ((restricts_token p.1).seqRight (restricts_pure p.2)).orElse
      ((extends_token p.1).seqRight_persists (extends_pure p.2).persists) ih

theorem restricts_run (p : Char → Bool) : Restricts (run p) where
  leaves := leaves_run p
  excerpt cs inside rest more taken := by
    obtain ⟨split, all⟩ := run_eq_some taken
    rw [← List.append_assoc] at split
    rw [List.append_cancel_right split]
    exact reads_run all (stops_of_run taken).of_append

theorem restricts_run1 (p : Char → Bool) : Restricts (run1 p) where
  leaves := leaves_run1 p
  excerpt cs inside rest more taken := by
    have run : run p (cs ++ more) = some (inside, rest ++ more) := by
      unfold run1 at taken
      split at taken
      · cases taken
      · exact taken
    obtain ⟨same, left⟩ := Prod.mk.inj (Option.some.inj ((restricts_run p).excerpt cs inside rest more run))
    have some : cs.takeWhile p ≠ [] := same ▸ (run1_eq_some taken).2.1
    rw [← same, ← left]
    exact if_neg some

theorem restricts_identifier : Restricts identifier := (restricts_run1 Text.isWordChar).map String.ofList

theorem restricts_inlineBlanks : Restricts inlineBlanks :=
  (restricts_run Text.isInlineBlank).bind fun _ => restricts_pure ()

theorem restricts_quoted : Restricts quoted :=
  (restricts_token "\"").bind fun _ => (restricts_run _).bind fun inside => (restricts_token "\"").bind fun _ =>
    restricts_pure (String.ofList (Text.decodeEntities inside))

end DiagramText.Reader
