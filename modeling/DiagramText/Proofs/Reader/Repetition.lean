import DiagramText.Proofs.Reader.Results

/-! Repetition, an item at a time. A reader that takes something whenever it succeeds is repeated until
it refuses: the length of the text, which bounds the number of items, is always enough. -/
namespace DiagramText.Reader

variable {α β : Type} {r : Reader α} {cs mid rest : List Char} {a : α} {as : List α}

/-! ### Readers that take something -/

/-- A reader that takes one character at least, whatever it reads. -/
def Consumes (r : Reader α) : Prop := ∀ cs a rest, r cs = some (a, rest) → rest.length < cs.length

theorem Consumes.bind {f : α → Reader β} (first : Consumes r) (next : ∀ a, Leaves (f a)) : Consumes (r >>= f) := by
  intro cs b rest taken
  obtain ⟨a, mid, one, two⟩ := bind_eq_some taken
  exact Nat.lt_of_le_of_lt (next a mid b rest two).length_le (first cs a mid one)

theorem Leaves.bind_consumes {f : α → Reader β} (first : Leaves r) (next : ∀ a, Consumes (f a)) :
    Consumes (r >>= f) := by
  intro cs b rest taken
  obtain ⟨a, mid, one, two⟩ := bind_eq_some taken
  exact Nat.lt_of_lt_of_le (next a mid b rest two) (first cs a mid one).length_le

theorem Consumes.map (consumes : Consumes r) (f : α → β) : Consumes (f <$> r) := by
  rw [map_eq_pure_bind]
  exact consumes.bind fun a => leaves_pure (f a)

theorem Consumes.seqRight {s : Reader β} (first : Consumes r) (second : Leaves s) : Consumes (r *> s) := by
  rw [seqRight_eq_bind]
  exact first.bind fun _ => second

theorem Leaves.seqRight_consumes {s : Reader β} (first : Leaves r) (second : Consumes s) : Consumes (r *> s) := by
  rw [seqRight_eq_bind]
  exact first.bind_consumes fun _ => second

theorem Consumes.orElse {s : Reader α} (first : Consumes r) (second : Consumes s) : Consumes (r <|> s) :=
  fun cs a rest taken => (orElse_eq_some taken).elim (first cs a rest) (second cs a rest)

theorem consumes_token {s : String} (some : s.toList ≠ []) : Consumes (token s) := by
  intro cs a rest taken
  have one := List.length_pos_iff.2 some
  rw [token_eq_some taken, List.length_append]
  omega

theorem consumes_oneOf {table : List (String × α)} (some : ∀ p ∈ table, p.1.toList ≠ []) :
    Consumes (oneOf table) := by
  induction table with
  | nil => exact fun _ _ _ taken => nomatch taken
  | cons p table ih =>
    rw [List.forall_mem_cons] at some
    exact ((consumes_token some.1).seqRight (leaves_pure p.2)).orElse (ih some.2)

theorem consumes_run1 (p : Char → Bool) : Consumes (run1 p) := by
  intro cs inside rest taken
  obtain ⟨split, some, -⟩ := run1_eq_some taken
  have one := List.length_pos_iff.2 some
  rw [split, List.length_append]
  omega

theorem consumes_inlineBlanks1 : Consumes inlineBlanks1 :=
  (consumes_run1 Text.isInlineBlank).bind fun _ => leaves_pure ()

/-! ### Enough is as good as more -/

theorem upTo_refused (refused : Refuses r cs) (n : Nat) : upTo r n cs = some ([], cs) := by
  cases n with
  | zero => rfl
  | succ n => exact (refused.bind _).orElse (Reads.pure [] cs)

theorem Reads.upTo_succ (first : Reads r cs a mid) {n : Nat} (others : Reads (upTo r n) mid as rest) :
    Reads (upTo r (n + 1)) cs (a :: as) rest :=
  (first.bind (others.bind (Reads.pure (a :: as) rest))).orElse

theorem exists_reads_upTo (r : Reader α) (n : Nat) (cs : List Char) : ∃ as rest, Reads (upTo r n) cs as rest := by
  induction n generalizing cs with
  | zero => exact ⟨[], cs, rfl⟩
  | succ n ih =>
    cases taken : r cs with
    | none => exact ⟨[], cs, upTo_refused taken (n + 1)⟩
    | some p =>
      obtain ⟨as, rest, others⟩ := ih p.2
      have first : Reads r cs p.1 p.2 := taken
      exact ⟨p.1 :: as, rest, first.upTo_succ others⟩

theorem exists_reads_many (r : Reader α) (cs : List Char) : ∃ as rest, Reads (many r) cs as rest :=
  exists_reads_upTo r cs.length cs

theorem exists_reads_optional (r : Reader α) (cs : List Char) : ∃ o rest, Reads (optional r) cs o rest := by
  cases taken : r cs with
  | none => exact ⟨none, cs, Refuses.optional taken⟩
  | some p =>
    have first : Reads r cs p.1 p.2 := taken
    exact ⟨some p.1, p.2, first.optional⟩

/-- Every bound that is as long as the text gives the same. -/
theorem upTo_congr (consumes : Consumes r) {m n : Nat} (left : cs.length ≤ m) (right : cs.length ≤ n) :
    upTo r m cs = upTo r n cs := by
  induction m generalizing n cs with
  | zero =>
    obtain rfl := List.length_eq_zero_iff.1 (Nat.le_zero.1 left)
    have refused : Refuses r [] := by
      cases taken : r [] with
      | none => exact taken
      | some p => exact absurd (consumes [] p.1 p.2 taken) (Nat.not_lt_zero _)
    rw [upTo_refused refused, upTo_refused refused]
  | succ m ih =>
    cases taken : r cs with
    | none => rw [upTo_refused taken, upTo_refused taken]
    | some p =>
      have shorter := consumes cs p.1 p.2 taken
      have first : Reads r cs p.1 p.2 := taken
      cases n with
      | zero => omega
      | succ n =>
        obtain ⟨as, rest, others⟩ := exists_reads_upTo r m p.2
        have same : upTo r m p.2 = upTo r n p.2 := ih (by omega) (by omega)
        exact (first.upTo_succ others).trans (first.upTo_succ (same.symm.trans others)).symm

/-! ### One item and then the others -/

theorem reads_many_cons (consumes : Consumes r) (first : Reads r cs a mid) (others : Reads (many r) mid as rest) :
    Reads (many r) cs (a :: as) rest := by
  have shorter := consumes cs a mid first
  obtain ⟨n, long⟩ := Nat.exists_eq_add_one_of_ne_zero (Nat.ne_zero_of_lt shorter)
  have bounded : Reads (upTo r n) mid as rest := by
    have same : upTo r n mid = many r mid := upTo_congr consumes (by omega) (Nat.le_refl _)
    exact same.trans others
  show upTo r cs.length cs = _
  rw [long]
  exact first.upTo_succ bounded

theorem reads_many_append (consumes : Consumes r) {text : α → List Char} {items more : List α}
    (each : ∀ a ∈ items, ∀ cs, Reads r (text a ++ cs) a cs) (others : Reads (many r) cs more rest) :
    Reads (many r) (items.flatMap text ++ cs) (items ++ more) rest := by
  induction items with
  | nil => exact others
  | cons a items ih =>
    rw [List.forall_mem_cons] at each
    rw [List.flatMap_cons, List.append_assoc]
    exact reads_many_cons consumes (each.1 _) (ih each.2)

theorem many_eq_cons (consumes : Consumes r) (taken : many r cs = some (a :: as, rest)) :
    ∃ mid, Reads r cs a mid ∧ Reads (many r) mid as rest := by
  cases first : r cs with
  | none => cases ((reads_many_none first).inj taken).1
  | some p =>
    obtain ⟨b, mid⟩ := p
    obtain ⟨bs, left, others⟩ := exists_reads_many r mid
    obtain ⟨same, rfl⟩ := (reads_many_cons consumes first others).inj taken
    obtain ⟨rfl, rfl⟩ := List.cons.inj same
    exact ⟨mid, first, others⟩

theorem many_eq_nil (consumes : Consumes r) (taken : many r cs = some ([], rest)) : rest = cs := by
  cases first : r cs with
  | none => exact ((reads_many_none first).inj taken).2.symm
  | some p =>
    obtain ⟨bs, left, others⟩ := exists_reads_many r p.2
    cases ((reads_many_cons consumes first others).inj taken).1

/-- One item at least is some items. -/
theorem many_of_many1 (consumes : Consumes r) (taken : many1 r cs = some (as, rest)) :
    as ≠ [] ∧ Reads (many r) cs as rest := by
  obtain ⟨a, mid, first, others⟩ := bind_eq_some taken
  obtain ⟨bs, left, items, made⟩ := bind_eq_some others
  obtain ⟨rfl, rfl⟩ := pure_eq_some made
  exact ⟨List.cons_ne_nil a bs, reads_many_cons consumes first items⟩

end DiagramText.Reader
