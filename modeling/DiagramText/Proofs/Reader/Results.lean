import DiagramText.Proofs.Quoting

/-! What can come out of a reader, whatever the text. `Yields r P` says that every result of `r` has
the property `P`; like `Reads` it is built up along the readers. -/
namespace DiagramText.Reader

open Text (IsWord)

variable {α β : Type} {r s : Reader α} {P : α → Prop} {Q : β → Prop}

def Yields (r : Reader α) (P : α → Prop) : Prop := ∀ cs a rest, r cs = some (a, rest) → P a

theorem whole?_eq_some {cs : List Char} {a : α} (h : whole? r cs = some a) : r cs = some (a, []) := by
  unfold whole? at h
  split at h
  · next b taken =>
    obtain rfl := Option.some.inj h
    exact taken
  · cases h

theorem Yields.whole? (yields : Yields r P) {cs : List Char} {a : α} (h : Reader.whole? r cs = some a) :
    P a := yields cs a [] (whole?_eq_some h)

/-! ### Sequence -/

theorem yields_any (r : Reader α) : Yields r fun _ => True := fun _ _ _ _ => trivial

theorem Yields.mono {R : α → Prop} (yields : Yields r P) (weaker : ∀ a, P a → R a) : Yields r R :=
  fun cs a rest taken => weaker a (yields cs a rest taken)

theorem pure_eq_some {cs rest : List Char} {a b : α} (made : (pure a : Reader α) cs = some (b, rest)) :
    a = b ∧ cs = rest := Prod.mk.inj (Option.some.inj made)

theorem yields_pure {a : α} (h : P a) : Yields (pure a) P := by
  intro cs b rest taken
  obtain ⟨rfl, -⟩ := pure_eq_some taken
  exact h

theorem bind_eq_some {f : α → Reader β} {cs rest : List Char} {b : β} (taken : (r >>= f) cs = some (b, rest)) :
    ∃ a mid, r cs = some (a, mid) ∧ f a mid = some (b, rest) := by
  obtain ⟨⟨a, mid⟩, one, two⟩ := Option.bind_eq_some_iff.1 taken
  exact ⟨a, mid, one, two⟩

theorem Yields.bind {f : α → Reader β} (first : Yields r P) (next : ∀ a, P a → Yields (f a) Q) :
    Yields (r >>= f) Q := by
  intro cs b rest taken
  obtain ⟨a, mid, one, two⟩ := bind_eq_some taken
  exact next a (first cs a mid one) mid b rest two

theorem Yields.map {f : α → β} (first : Yields r P) (image : ∀ a, P a → Q (f a)) : Yields (f <$> r) Q := by
  rw [map_eq_pure_bind]
  exact first.bind fun a h => yields_pure (image a h)

theorem Yields.seqRight (r : Reader α) {s : Reader β} (second : Yields s Q) : Yields (r *> s) Q := by
  rw [seqRight_eq_bind]
  exact (yields_any r).bind fun _ _ => second

theorem Yields.seqLeft (first : Yields r P) (s : Reader β) : Yields (r <* s) P := by
  rw [seqLeft_eq_bind]
  exact first.bind fun a h => (yields_any s).bind fun _ _ => yields_pure h

/-! ### Choice and repetition -/

theorem orElse_eq_some {cs rest : List Char} {a : α} (taken : (r <|> s) cs = some (a, rest)) :
    r cs = some (a, rest) ∨ s cs = some (a, rest) := by
  replace taken : (r cs <|> s cs) = some (a, rest) := taken
  cases read : r cs with
  | none =>
    rw [read] at taken
    exact .inr taken
  | some p =>
    rw [read] at taken
    exact .inl taken

theorem optional_eq_some {cs rest : List Char} {o : Option α} (taken : optional r cs = some (o, rest)) :
    (∃ a, o = some a ∧ r cs = some (a, rest)) ∨ o = none ∧ rest = cs := by
  rcases orElse_eq_some taken with there | missing
  · rw [map_eq_pure_bind] at there
    obtain ⟨a, mid, one, two⟩ := bind_eq_some there
    obtain ⟨rfl, rfl⟩ := pure_eq_some two
    exact .inl ⟨a, rfl, one⟩
  · obtain ⟨rfl, rfl⟩ := pure_eq_some missing
    exact .inr ⟨rfl, rfl⟩

theorem firstOf_eq_some {rs : List (Reader α)} {cs rest : List Char} {a : α}
    (taken : firstOf rs cs = some (a, rest)) : ∃ r ∈ rs, r cs = some (a, rest) := by
  induction rs with
  | nil => cases taken
  | cons r rs ih =>
    rcases orElse_eq_some taken with first | later
    · exact ⟨r, List.mem_cons_self .., first⟩
    · obtain ⟨s, there, read⟩ := ih later
      exact ⟨s, List.mem_cons_of_mem _ there, read⟩

theorem Yields.orElse (first : Yields r P) (second : Yields s P) : Yields (r <|> s) P := by
  intro cs a rest taken
  exact (orElse_eq_some taken).elim (first cs a rest) (second cs a rest)

theorem Yields.optional (yields : Yields r P) : Yields (optional r) fun o => ∀ a ∈ o, P a :=
  (yields.map fun a h b same => (Option.some.inj same) ▸ h).orElse (yields_pure (by simp))

theorem yields_firstOf {rs : List (Reader α)} (each : ∀ r ∈ rs, Yields r P) : Yields (firstOf rs) P := by
  intro cs a rest taken
  obtain ⟨r, there, read⟩ := firstOf_eq_some taken
  exact each r there cs a rest read

theorem Yields.many (yields : Yields r P) : Yields (many r) fun as => ∀ a ∈ as, P a := by
  have within (n : Nat) : Yields (upTo r n) fun as => ∀ a ∈ as, P a := by
    induction n with
    | zero => exact yields_pure (by simp)
    | succ n ih =>
      refine Yields.orElse ?_ (yields_pure (by simp))
      exact yields.bind fun a h => ih.bind fun as others =>
        yields_pure (List.forall_mem_cons.2 ⟨h, others⟩)
  exact fun cs => within cs.length cs

theorem Yields.many1 (yields : Yields r P) : Yields (many1 r) fun as => ∀ a ∈ as, P a :=
  yields.bind fun _ h => yields.many.bind fun _ others =>
    yields_pure (List.forall_mem_cons.2 ⟨h, others⟩)

theorem Yields.sepBy1 (yields : Yields r P) (sep : Reader β) :
    Yields (sepBy1 r sep) fun as => as ≠ [] ∧ ∀ a ∈ as, P a :=
  yields.bind fun _ h => (yields.seqRight sep).many.bind fun _ others =>
    yields_pure ⟨List.cons_ne_nil _ _, List.forall_mem_cons.2 ⟨h, others⟩⟩

/-! ### Tokens and runs -/

theorem token_eq_some {s : String} {cs rest : List Char} {u : Unit} (taken : token s cs = some (u, rest)) :
    cs = s.toList ++ rest := by
  obtain ⟨left, found, same⟩ := Option.map_eq_some_iff.1 taken
  obtain ⟨-, rfl⟩ := Prod.mk.inj same
  exact (List.isPrefixOf?_eq_some_iff_append_eq.1 found).symm

theorem run_eq_some {p : Char → Bool} {cs inside rest : List Char} (taken : run p cs = some (inside, rest)) :
    cs = inside ++ rest ∧ ∀ c ∈ inside, p c := by
  obtain ⟨rfl, rfl⟩ := Prod.mk.inj (Option.some.inj taken)
  exact ⟨List.takeWhile_append_dropWhile.symm, List.all_eq_true.1 List.all_takeWhile⟩

theorem run1_eq_some {p : Char → Bool} {cs inside rest : List Char} (taken : run1 p cs = some (inside, rest)) :
    cs = inside ++ rest ∧ inside ≠ [] ∧ ∀ c ∈ inside, p c := by
  unfold run1 at taken
  split at taken
  · cases taken
  · next some =>
    obtain ⟨same, all⟩ := run_eq_some taken
    obtain ⟨rfl, -⟩ := Prod.mk.inj (Option.some.inj taken)
    exact ⟨same, some, all⟩

/-! ### The pieces that statements are made of -/

theorem inlineBlanks_eq_some {cs rest : List Char} {u : Unit} (taken : inlineBlanks cs = some (u, rest)) :
    ∃ bs, cs = bs ++ rest ∧ ∀ c ∈ bs, Text.isInlineBlank c := by
  obtain ⟨bs, mid, run, made⟩ := bind_eq_some taken
  obtain ⟨-, rfl⟩ := pure_eq_some made
  exact ⟨bs, run_eq_some run⟩

theorem identifier_eq_some {cs rest : List Char} {id : String} (taken : identifier cs = some (id, rest)) :
    cs = id.toList ++ rest ∧ IsWord id := by
  rw [identifier, map_eq_pure_bind] at taken
  obtain ⟨inside, mid, run, made⟩ := bind_eq_some taken
  obtain ⟨rfl, rfl⟩ := pure_eq_some made
  obtain ⟨split, some, all⟩ := run1_eq_some run
  exact ⟨by rw [String.toList_ofList]; exact split, by rwa [String.toList_ofList], by rwa [String.toList_ofList]⟩

theorem oneOf_eq_some {table : List (String × α)} {cs rest : List Char} {a : α}
    (taken : oneOf table cs = some (a, rest)) : ∃ p ∈ table, p.2 = a ∧ cs = p.1.toList ++ rest := by
  induction table with
  | nil => cases taken
  | cons p table ih =>
    rcases orElse_eq_some taken with first | later
    · rw [seqRight_eq_bind] at first
      obtain ⟨_, mid, token, made⟩ := bind_eq_some first
      obtain ⟨rfl, rfl⟩ := pure_eq_some made
      exact ⟨p, List.mem_cons_self .., rfl, token_eq_some token⟩
    · obtain ⟨q, there, same⟩ := ih later
      exact ⟨q, List.mem_cons_of_mem _ there, same⟩

theorem yields_oneOf (table : List (String × α)) : Yields (oneOf table) fun a => ∃ p ∈ table, p.2 = a := by
  intro cs a rest taken
  obtain ⟨p, there, same, -⟩ := oneOf_eq_some taken
  exact ⟨p, there, same⟩

theorem yields_run1 (p : Char → Bool) : Yields (run1 p) fun cs => cs ≠ [] ∧ ∀ c ∈ cs, p c :=
  fun _ _ _ taken => (run1_eq_some taken).2

theorem yields_identifier : Yields identifier IsWord := fun _ _ _ taken => (identifier_eq_some taken).2

theorem yields_quoted : Yields quoted fun s => ¬ Text.quoteEntity <:+: s.toList :=
  (yields_any _).bind fun _ _ => (yields_any _).bind fun cs _ => (yields_any _).bind fun _ _ =>
    yields_pure (by
      rw [String.toList_ofList]
      exact Text.not_quoteEntity_infix_decodeEntities cs)

theorem yields_restTrimmed : Yields restTrimmed fun s => Text.trimmed s = s :=
  (yields_any rest).map fun cs _ => by rw [Text.trimmed, String.toList_ofList, Text.trim_trim]

theorem nonEmpty_eq_some {s t : String} (h : nonEmpty s = some t) : t = s ∧ s ≠ "" := by
  unfold nonEmpty at h
  split at h
  · cases h
  · next some => exact ⟨(Option.some.inj h).symm, some⟩

/-- A label that is no label is none. -/
theorem forall_mem_bind_nonEmpty {o : Option String} {P : String → Prop} (each : ∀ s ∈ o, P s) :
    ∀ s ∈ o.bind nonEmpty, s ≠ "" ∧ P s := by
  intro s h
  obtain ⟨t, there, kept⟩ := Option.bind_eq_some_iff.1 h
  obtain ⟨rfl, some⟩ := nonEmpty_eq_some kept
  exact ⟨some, each s there⟩

theorem yields_colonLabel : Yields colonLabel fun o => ∀ s ∈ o, s ≠ "" ∧ Text.trimmed s = s :=
  (yields_restTrimmed.seqRight _).optional.bind fun _ each =>
    yields_pure (forall_mem_bind_nonEmpty each)

/-! ### What is left over -/

/-- A reader that leaves the end of the text, whatever it takes. -/
def Leaves (r : Reader α) : Prop := ∀ cs a rest, r cs = some (a, rest) → rest <:+ cs

theorem leaves_pure (a : α) : Leaves (pure a) := by
  intro cs b rest taken
  obtain ⟨-, rfl⟩ := pure_eq_some taken
  exact List.suffix_refl _

theorem Leaves.bind {f : α → Reader β} (first : Leaves r) (next : ∀ a, Leaves (f a)) : Leaves (r >>= f) := by
  intro cs b rest taken
  obtain ⟨a, mid, one, two⟩ := bind_eq_some taken
  exact (next a mid b rest two).trans (first cs a mid one)

theorem Leaves.map (leaves : Leaves r) (f : α → β) : Leaves (f <$> r) := by
  rw [map_eq_pure_bind]
  exact leaves.bind fun a => leaves_pure (f a)

theorem Leaves.seqRight {s : Reader β} (first : Leaves r) (second : Leaves s) : Leaves (r *> s) := by
  rw [seqRight_eq_bind]
  exact first.bind fun _ => second

theorem Leaves.orElse (first : Leaves r) (second : Leaves s) : Leaves (r <|> s) :=
  fun cs a rest taken => (orElse_eq_some taken).elim (first cs a rest) (second cs a rest)

theorem Leaves.many (leaves : Leaves r) : Leaves (many r) := by
  have within (n : Nat) : Leaves (upTo r n) := by
    induction n with
    | zero => exact leaves_pure []
    | succ n ih =>
      exact (leaves.bind fun a => ih.bind fun as => leaves_pure (a :: as)).orElse (leaves_pure [])
  exact fun cs => within cs.length cs

theorem Leaves.optional (leaves : Leaves r) : Leaves (optional r) := (leaves.map some).orElse (leaves_pure none)

theorem Leaves.sepBy1 {sep : Reader β} (leaves : Leaves r) (between : Leaves sep) : Leaves (sepBy1 r sep) :=
  leaves.bind fun a => (between.seqRight leaves).many.bind fun as => leaves_pure (a :: as)

theorem leaves_token (s : String) : Leaves (token s) :=
  fun _ _ _ taken => ⟨s.toList, (token_eq_some taken).symm⟩

theorem leaves_oneOf (table : List (String × α)) : Leaves (oneOf table) := by
  induction table with
  | nil => exact fun _ _ _ taken => nomatch taken
  | cons p table ih => exact ((leaves_token p.1).seqRight (leaves_pure p.2)).orElse ih

theorem leaves_run (p : Char → Bool) : Leaves (run p) :=
  fun _ inside _ taken => ⟨inside, (run_eq_some taken).1.symm⟩

theorem leaves_run1 (p : Char → Bool) : Leaves (run1 p) :=
  fun _ inside _ taken => ⟨inside, (run1_eq_some taken).1.symm⟩

theorem leaves_identifier : Leaves identifier := (leaves_run1 Text.isWordChar).map String.ofList

theorem leaves_inlineBlanks : Leaves inlineBlanks :=
  (leaves_run Text.isInlineBlank).bind fun _ => leaves_pure ()

theorem leaves_inlineBlanks1 : Leaves inlineBlanks1 :=
  (leaves_run1 Text.isInlineBlank).bind fun _ => leaves_pure ()

theorem leaves_atEnd : Leaves atEnd := by
  intro cs a rest taken
  unfold atEnd at taken
  split at taken
  · obtain ⟨-, rfl⟩ := Prod.mk.inj (Option.some.inj taken)
    exact List.nil_suffix
  · cases taken

theorem leaves_quoted : Leaves quoted :=
  (leaves_token "\"").bind fun _ => (leaves_run _).bind fun cs => (leaves_token "\"").bind fun _ =>
    leaves_pure (String.ofList (Text.decodeEntities cs))

/-! ### Texts without a character -/

/-- From a text without a character, a result with a property, and a rest without the character. -/
def YieldsWithout (c : Char) (r : Reader α) (P : α → Prop) : Prop :=
  ∀ cs a rest, c ∉ cs → r cs = some (a, rest) → P a ∧ c ∉ rest

variable {c : Char}

theorem Yields.without (yields : Yields r P) (leaves : Leaves r) (c : Char) : YieldsWithout c r P :=
  fun cs a rest free taken => ⟨yields cs a rest taken, fun h => free ((leaves cs a rest taken).subset h)⟩

theorem Leaves.without (leaves : Leaves r) (c : Char) : YieldsWithout c r fun _ => True :=
  (yields_any r).without leaves c

theorem YieldsWithout.whole? (yields : YieldsWithout c r P) {cs : List Char} {a : α} (free : c ∉ cs)
    (h : Reader.whole? r cs = some a) : P a := (yields cs a [] free (whole?_eq_some h)).1

theorem yieldsWithout_pure {a : α} (h : P a) : YieldsWithout c (pure a) P :=
  (yields_pure h).without (leaves_pure a) c

theorem YieldsWithout.bind {f : α → Reader β} (first : YieldsWithout c r P)
    (next : ∀ a, P a → YieldsWithout c (f a) Q) : YieldsWithout c (r >>= f) Q := by
  intro cs b rest free taken
  obtain ⟨a, mid, one, two⟩ := bind_eq_some taken
  obtain ⟨h, left⟩ := first cs a mid free one
  exact next a h mid b rest left two

theorem YieldsWithout.map {f : α → β} (first : YieldsWithout c r P) (image : ∀ a, P a → Q (f a)) :
    YieldsWithout c (f <$> r) Q := by
  rw [map_eq_pure_bind]
  exact first.bind fun a h => yieldsWithout_pure (image a h)

theorem YieldsWithout.seqRight {s : Reader β} (leaves : Leaves r) (second : YieldsWithout c s Q) :
    YieldsWithout c (r *> s) Q := by
  rw [seqRight_eq_bind]
  exact (leaves.without c).bind fun _ _ => second

theorem YieldsWithout.orElse (first : YieldsWithout c r P) (second : YieldsWithout c s P) :
    YieldsWithout c (r <|> s) P := by
  intro cs a rest free taken
  exact (orElse_eq_some taken).elim (first cs a rest free) (second cs a rest free)

theorem YieldsWithout.optional (yields : YieldsWithout c r P) :
    YieldsWithout c (optional r) fun o => ∀ a ∈ o, P a :=
  (yields.map fun a h b same => (Option.some.inj same) ▸ h).orElse (yieldsWithout_pure (by simp))

theorem YieldsWithout.many (yields : YieldsWithout c r P) : YieldsWithout c (many r) fun as => ∀ a ∈ as, P a := by
  have within (n : Nat) : YieldsWithout c (upTo r n) fun as => ∀ a ∈ as, P a := by
    induction n with
    | zero => exact yieldsWithout_pure (by simp)
    | succ n ih =>
      refine YieldsWithout.orElse ?_ (yieldsWithout_pure (by simp))
      exact yields.bind fun a h => ih.bind fun as others =>
        yieldsWithout_pure (List.forall_mem_cons.2 ⟨h, others⟩)
  exact fun cs => within cs.length cs

theorem YieldsWithout.sepBy (yields : YieldsWithout c r P) {sep : Reader β} (leaves : Leaves sep) :
    YieldsWithout c (sepBy r sep) fun as => ∀ a ∈ as, P a := by
  refine YieldsWithout.orElse ?_ (yieldsWithout_pure (by simp))
  exact yields.bind fun _ h => (yields.seqRight leaves).many.bind fun _ others =>
    yieldsWithout_pure (List.forall_mem_cons.2 ⟨h, others⟩)

theorem yieldsWithout_rest : YieldsWithout c rest fun cs => c ∉ cs := by
  intro cs a left free taken
  obtain ⟨rfl, rfl⟩ := Prod.mk.inj (Option.some.inj taken)
  exact ⟨free, List.not_mem_nil⟩

theorem yieldsWithout_run (p : Char → Bool) : YieldsWithout c (run p) fun cs => c ∉ cs := by
  intro cs inside rest free taken
  rwa [(run_eq_some taken).1, List.mem_append, not_or] at free

theorem yieldsWithout_run1 (p : Char → Bool) : YieldsWithout c (run1 p) fun cs => c ∉ cs := by
  intro cs inside rest free taken
  rwa [(run1_eq_some taken).1, List.mem_append, not_or] at free

theorem yieldsWithout_quoted (other : c ≠ '"') : YieldsWithout c quoted fun s => c ∉ s.toList := by
  refine ((leaves_token "\"").without c).bind fun _ _ => (yieldsWithout_run _).bind fun cs free =>
    ((leaves_token "\"").without c).bind fun _ _ => yieldsWithout_pure ?_
  rw [String.toList_ofList]
  exact fun h => free (Text.mem_of_mem_decodeEntities other h)

/-! ### Characters that are not lost -/

/-- From a text with a character, a result that shows it, or a rest that still has it. -/
def Conveys (c : Char) (r : Reader α) (P : α → Prop) : Prop :=
  ∀ cs a rest, c ∈ cs → r cs = some (a, rest) → P a ∨ c ∈ rest

theorem conveys_pure (a : α) : Conveys c (pure a) P := by
  intro cs b rest there taken
  obtain ⟨-, rfl⟩ := pure_eq_some taken
  exact .inr there

/-- What the first reader shows has to be shown to the end. -/
theorem Conveys.bind {f : α → Reader β} (first : Conveys c r P) (shown : ∀ a, P a → Yields (f a) Q)
    (next : ∀ a, Conveys c (f a) Q) : Conveys c (r >>= f) Q := by
  intro cs b rest there taken
  obtain ⟨a, mid, one, two⟩ := bind_eq_some taken
  rcases first cs a mid there one with h | left
  · exact .inl (shown a h mid b rest two)
  · exact next a mid b rest left two

theorem Conveys.map {f : α → β} (first : Conveys c r P) (image : ∀ a, P a → Q (f a)) : Conveys c (f <$> r) Q := by
  rw [map_eq_pure_bind]
  exact first.bind (fun a h => yields_pure (image a h)) fun a => conveys_pure (f a)

/-- A reader that takes none of a character. -/
abbrev Skips (c : Char) (r : Reader α) : Prop := Conveys c r fun _ => False

theorem Skips.bind {f : α → Reader β} (first : Skips c r) (next : ∀ a, Conveys c (f a) Q) :
    Conveys c (r >>= f) Q := Conveys.bind first (fun _ h => h.elim) next

theorem Skips.seqRight {s : Reader β} (first : Skips c r) (second : Conveys c s Q) : Conveys c (r *> s) Q := by
  rw [seqRight_eq_bind]
  exact first.bind fun _ => second

theorem Conveys.orElse (first : Conveys c r P) (second : Conveys c s P) : Conveys c (r <|> s) P :=
  fun cs a rest there taken => (orElse_eq_some taken).elim (first cs a rest there) (second cs a rest there)

theorem Conveys.optional (conveys : Conveys c r P) : Conveys c (optional r) fun o => ∃ a ∈ o, P a :=
  (conveys.map fun a h => ⟨a, rfl, h⟩).orElse (conveys_pure none)

theorem Skips.optional (skips : Skips c r) : Skips c (optional r) :=
  (skips.map fun _ h => h).orElse (conveys_pure none)

theorem Skips.many (skips : Skips c r) : Skips c (many r) := by
  have within (n : Nat) : Skips c (upTo r n) := by
    induction n with
    | zero => exact conveys_pure []
    | succ n ih =>
      exact Conveys.orElse (skips.bind fun a => ih.bind fun as => conveys_pure (a :: as)) (conveys_pure [])
  exact fun cs => within cs.length cs

theorem Skips.sepBy1 {sep : Reader β} (skips : Skips c r) (between : Skips c sep) : Skips c (sepBy1 r sep) :=
  skips.bind fun a => (Skips.many (between.seqRight skips)).bind fun as => conveys_pure (a :: as)

theorem skips_token {s : String} (free : c ∉ s.toList) : Skips c (token s) := by
  intro cs a rest there taken
  rw [token_eq_some taken, List.mem_append] at there
  exact .inr (there.resolve_left free)

theorem skips_oneOf {table : List (String × α)} (free : ∀ p ∈ table, c ∉ p.1.toList) : Skips c (oneOf table) := by
  induction table with
  | nil => exact fun _ _ _ _ taken => nomatch taken
  | cons p table ih =>
    rw [List.forall_mem_cons] at free
    exact Conveys.orElse ((skips_token free.1).seqRight (conveys_pure p.2)) (ih free.2)

theorem conveys_run (p : Char → Bool) : Conveys c (run p) (c ∈ ·) := by
  intro cs inside rest there taken
  rwa [(run_eq_some taken).1, List.mem_append] at there

theorem conveys_run1 (p : Char → Bool) : Conveys c (run1 p) (c ∈ ·) := by
  intro cs inside rest there taken
  rwa [(run1_eq_some taken).1, List.mem_append] at there

theorem skips_inlineBlanks (solid : Text.isInlineBlank c = false) : Skips c inlineBlanks := by
  refine Skips.bind (fun cs inside rest there taken => ?_) fun _ => conveys_pure ()
  refine .inr ((conveys_run _ cs inside rest there taken).resolve_left fun h => ?_)
  exact absurd ((run_eq_some taken).2 c h) (by simp [solid])

theorem skips_inlineBlanks1 (solid : Text.isInlineBlank c = false) : Skips c inlineBlanks1 := by
  refine Skips.bind (fun cs inside rest there taken => ?_) fun _ => conveys_pure ()
  refine .inr ((conveys_run1 _ cs inside rest there taken).resolve_left fun h => ?_)
  exact absurd ((run1_eq_some taken).2.2 c h) (by simp [solid])

/-- Entities and the quotes themselves are lost, and nothing else. -/
theorem conveys_quoted (other : c ∉ Text.quoteEntity) (quote : c ≠ '"') : Conveys c quoted fun s => c ∈ s.toList := by
  have mark : Skips c (token "\"") := skips_token (by simpa using quote)
  refine mark.bind fun _ => (conveys_run _).bind (fun cs inside => ?_) fun cs =>
    mark.bind fun _ => conveys_pure (String.ofList (Text.decodeEntities cs))
  refine (yields_any _).bind fun _ _ => yields_pure ?_
  rw [String.toList_ofList]
  exact Text.mem_decodeEntities other inside

end DiagramText.Reader
