import DiagramText.Proofs.Reader
import DiagramText.Sequence.Draft
import DiagramText.Text.Quoted

/-! What a sequence diagram tells: who takes part, and which messages and notes come one after the
other. A story is told statement by statement. Told again with every declaration in front, it comes
out the same: a step names only those who are there already, and a note finds its id free. -/
namespace DiagramText.Sequence

open Text (IsWord)

/-- A participant as a story knows it. -/
structure Member where
  id : String
  role : Option String
  label : String
deriving DecidableEq, Repr

/-- A message or a note. -/
inductive Step where
  | message (source target kind label : String)
  | note (id : String) (placement : Option String) (participants : List String) (text : String)
deriving DecidableEq, Repr

structure Story where
  cast : List Member
  steps : List Step
deriving DecidableEq, Repr

/-! ### Telling -/

def Step.noteId? : Step → Option String
  | .message .. => none
  | .note id .. => some id

def noteIds (steps : List Step) : List String := steps.filterMap Step.noteId?

/-- A declaration that names a note gives it another text. -/
def Step.relabel (name : String) (label : Option String) : Step → Step
  | .message source target kind text => .message source target kind text
  | .note id placement participants text =>
    .note id placement participants (if id = name then label.getD text else text)

/-- What a declaration says of a participant. -/
def Member.recast (name : String) (label : Option String) (role : Role) (m : Member) : Member :=
  if m.id = name then ⟨m.id, some role.keyword, label.getD m.label⟩ else m

namespace Story

def empty : Story := ⟨[], []⟩

def names (t : Story) : List String := t.cast.map (·.id) ++ noteIds t.steps

/-- The id of the next note. -/
def nextNote (t : Story) : String := "note_" ++ toString ((noteIds t.steps).length + 1)

/-- Whoever is not there yet comes in as a participant. -/
def enter (t : Story) (id : String) : Story :=
  if id ∈ t.names then t
  else { t with cast := t.cast ++ [⟨id, some Role.participant.keyword, id⟩] }

def recast (t : Story) (name : String) (label : Option String) (role : Role) : Story :=
  ⟨t.cast.map (Member.recast name label role), t.steps.map (Step.relabel name label)⟩

def happen (t : Story) (s : Step) : Story := { t with steps := t.steps ++ [s] }

def tell (t : Story) : Statement → Story
  | .participant id label role => (t.enter id).recast id label role
  | .message source target arrow label =>
    ((t.enter source).enter target).happen (.message source target arrow.key (label.getD ""))
  | .note placement participants text =>
    let there := participants.foldl enter t
    if there.nextNote ∈ there.names then there
    else there.happen (.note there.nextNote (some placement.text) participants text)

end Story

/-- Messages and notes count; declarations do not. -/
def Statement.isStep : Statement → Bool
  | .participant .. => false
  | .message .. | .note .. => true

/-! ### Stories that make sense -/

/-- A statement as a reader takes it off a line. -/
def Statement.IsSound : Statement → Prop
  | .participant id label _ => IsWord id ∧ ∀ l ∈ label, l ≠ "" ∧ Text.trimmed l = l
  | .message source target _ label =>
    IsWord source ∧ IsWord target ∧ ∀ l ∈ label, Text.trimmed l = l
  | .note _ participants text =>
    participants ≠ [] ∧ (∀ id ∈ participants, IsWord id) ∧ Text.trimmed text = text

structure Member.IsSound (m : Member) : Prop where
  word : IsWord m.id
  role : ∃ r : Role, m.role = some r.keyword
  some : m.label ≠ ""
  tight : Text.trimmed m.label = m.label

/-- What may happen next: a step names only those who are there, and the id of a note is free. -/
def Step.Fits (t : Story) : Step → Prop
  | .message source target kind label =>
    (IsWord source ∧ source ∈ t.names) ∧ (IsWord target ∧ target ∈ t.names) ∧
      (∃ a : Arrow, kind = a.key) ∧ Text.trimmed label = label
  | .note id placement participants text =>
    (id = t.nextNote ∧ id ∉ t.names) ∧ (∃ p : Placement, placement = some p.text) ∧
      (participants ≠ [] ∧ ∀ i ∈ participants, IsWord i ∧ i ∈ t.names) ∧ Text.trimmed text = text

/-- Steps each of which fits to those before it. -/
inductive Told (cast : List Member) : List Step → Prop where
  | nil : Told cast []
  | snoc {steps : List Step} {s : Step} : Told cast steps → s.Fits ⟨cast, steps⟩ →
      Told cast (steps ++ [s])

structure Story.IsSound (t : Story) : Prop where
  cast : ∀ m ∈ t.cast, m.IsSound
  distinct : (t.cast.map (·.id)).Nodup
  told : Told t.cast t.steps

@[simp] theorem noteIds_append (xs ys : List Step) : noteIds (xs ++ ys) = noteIds xs ++ noteIds ys :=
  List.filterMap_append

theorem noteIds_map {f : Step → Step} (same : ∀ s, (f s).noteId? = s.noteId?) (steps : List Step) :
    noteIds (steps.map f) = noteIds steps := by
  rw [noteIds, List.filterMap_map]
  exact congrArg (List.filterMap · steps) (funext same)

theorem noteId?_relabel (name : String) (label : Option String) (s : Step) :
    (s.relabel name label).noteId? = s.noteId? := by cases s <;> rfl

theorem map_id_recast (name : String) (label : Option String) (role : Role) (cast : List Member) :
    (cast.map (Member.recast name label role)).map (·.id) = cast.map (·.id) := by
  rw [List.map_map]
  apply List.map_congr_left
  intro m _
  simp only [Function.comp_apply, Member.recast]
  split <;> rfl

/-- Whether a step fits depends on names alone, and those who come in later do no harm. -/
theorem Step.Fits.mono {t u : Story} {s : Step} (fits : s.Fits t) (more : t.names ⊆ u.names)
    (next : u.nextNote = t.nextNote) (free : ∀ id ∈ s.noteId?, id ∉ u.names) : s.Fits u := by
  cases s with
  | message source target kind label =>
    obtain ⟨⟨word, there⟩, ⟨word', there'⟩, rest⟩ := fits
    exact ⟨⟨word, more there⟩, ⟨word', more there'⟩, rest⟩
  | note id placement participants text =>
    obtain ⟨⟨named, -⟩, placed, ⟨some, among⟩, tight⟩ := fits
    exact ⟨⟨named.trans next.symm, free id rfl⟩, placed,
      ⟨some, fun i h => ⟨(among i h).1, more (among i h).2⟩⟩, tight⟩

namespace Told

variable {cast cast' : List Member} {steps : List Step}

/-- No participant has the id of a note. -/
theorem free (told : Told cast steps) : ∀ id ∈ noteIds steps, id ∉ cast.map (·.id) := by
  induction told with
  | nil => simp [noteIds]
  | @snoc steps s before fits ih =>
    intro id h
    rw [noteIds_append, List.mem_append] at h
    rcases h with h | h
    · exact ih id h
    · cases s with
      | message => simp [noteIds, Step.noteId?] at h
      | note name placement participants text =>
        obtain rfl : id = name := by simpa [noteIds, Step.noteId?] using h
        exact fun there => fits.1.2 (List.mem_append_left _ there)

theorem mono (told : Told cast steps) (more : cast.map (·.id) ⊆ cast'.map (·.id))
    (free : ∀ id ∈ noteIds steps, id ∉ cast'.map (·.id)) : Told cast' steps := by
  induction told with
  | nil => exact .nil
  | @snoc steps s before fits ih =>
    rw [noteIds_append] at free
    refine .snoc (ih fun id h => free id (List.mem_append_left _ h)) (fits.mono ?_ rfl ?_)
    · exact List.append_subset.2 ⟨List.Subset.trans more (List.subset_append_left _ _),
        List.subset_append_right _ _⟩
    · intro id named
      cases s with
      | message => simp [Step.noteId?] at named
      | note name placement participants text =>
        obtain rfl : name = id := by simpa [Step.noteId?] using named
        have apart := free name (by simp [noteIds, Step.noteId?])
        have fresh := fits.1.2
        simp only [Story.names, List.mem_append, not_or] at fresh ⊢
        exact ⟨apart, fresh.2⟩

theorem relabel (told : Told cast steps) (name : String) {label : Option String}
    (tight : ∀ l ∈ label, Text.trimmed l = l) : Told cast (steps.map (Step.relabel name label)) := by
  induction told with
  | nil => exact .nil
  | @snoc steps s before fits ih =>
    rw [List.map_append]
    refine .snoc ih ?_
    have ids := noteIds_map (noteId?_relabel name label) steps
    have kept : s.Fits ⟨cast, steps.map (Step.relabel name label)⟩ := by
      cases s <;> simpa only [Step.Fits, Story.names, Story.nextNote, ids] using fits
    cases s with
    | message => exact kept
    | note id placement participants text =>
      refine ⟨kept.1, kept.2.1, kept.2.2.1, ?_⟩
      split
      · cases label with
        | none => exact kept.2.2.2
        | some l => exact tight l rfl
      · exact kept.2.2.2

end Told

namespace Story

variable {t : Story} {id : String}

theorem isSound_empty : IsSound empty := ⟨by simp [empty], by simp [empty], .nil⟩

/-! ### Coming in -/

theorem names_subset_enter (t : Story) (id : String) : t.names ⊆ (t.enter id).names := by
  unfold enter
  split
  · exact List.Subset.refl _
  · simp only [names, List.map_append, List.append_assoc]
    exact List.append_subset.2 ⟨List.subset_append_left _ _,
      List.Subset.trans (List.subset_append_right _ _) (List.subset_append_right _ _)⟩

theorem mem_names_enter (t : Story) (id : String) : id ∈ (t.enter id).names := by
  unfold enter
  split
  · assumption
  · simp [names]

theorem enter_of_mem (there : id ∈ t.names) : t.enter id = t := if_pos there

theorem isSound_enter (sound : t.IsSound) (word : IsWord id) : (t.enter id).IsSound := by
  unfold enter
  split
  · exact sound
  · next absent =>
    rw [names, List.mem_append, not_or] at absent
    have member : Member.IsSound ⟨id, some Role.participant.keyword, id⟩ :=
      ⟨word, ⟨.participant, rfl⟩, word.ne_empty, word.trimmed⟩
    refine ⟨?_, ?_, sound.told.mono ?_ ?_⟩
    · rw [List.forall_mem_append]
      exact ⟨sound.cast, by simpa using member⟩
    · rw [List.map_append, List.nodup_append]
      refine ⟨sound.distinct, by simp, ?_⟩
      rintro a there b single rfl
      obtain rfl : a = id := by simpa using single
      exact absent.1 there
    · rw [List.map_append]
      exact List.subset_append_left _ _
    · intro name named
      rw [List.map_append, List.mem_append, not_or]
      refine ⟨sound.told.free name named, ?_⟩
      simp only [List.map_cons, List.map_nil, List.mem_singleton]
      rintro rfl
      exact absent.2 named

theorem names_subset_enterAll (t : Story) (ids : List String) : t.names ⊆ (ids.foldl enter t).names := by
  induction ids generalizing t with
  | nil => exact List.Subset.refl _
  | cons id ids ih => exact List.Subset.trans (names_subset_enter t id) (ih _)

theorem mem_names_enterAll (t : Story) (ids : List String) : ∀ id ∈ ids, id ∈ (ids.foldl enter t).names := by
  induction ids generalizing t with
  | nil => simp
  | cons id ids ih =>
    rw [List.forall_mem_cons]
    exact ⟨names_subset_enterAll _ ids (mem_names_enter t id), ih _⟩

theorem enterAll_of_mem {ids : List String} (there : ∀ id ∈ ids, id ∈ t.names) :
    ids.foldl enter t = t := by
  induction ids with
  | nil => rfl
  | cons id ids ih =>
    rw [List.forall_mem_cons] at there
    rw [List.foldl_cons, enter_of_mem there.1, ih there.2]

theorem isSound_enterAll (sound : t.IsSound) {ids : List String} (words : ∀ id ∈ ids, IsWord id) :
    (ids.foldl enter t).IsSound := by
  induction ids generalizing t with
  | nil => exact sound
  | cons id ids ih =>
    rw [List.forall_mem_cons] at words
    exact ih (isSound_enter sound words.1) words.2

/-! ### A statement more -/

theorem isSound_recast (sound : t.IsSound) (name : String) {label : Option String}
    (plain : ∀ l ∈ label, l ≠ "" ∧ Text.trimmed l = l) (role : Role) :
    (t.recast name label role).IsSound where
  cast := by
    rw [recast, List.forall_mem_map]
    intro m there
    have old := sound.cast m there
    unfold Member.recast
    split
    · cases label with
      | none => exact ⟨old.word, ⟨role, rfl⟩, old.some, old.tight⟩
      | some l => exact ⟨old.word, ⟨role, rfl⟩, (plain l rfl).1, (plain l rfl).2⟩
    · exact old
  distinct := by
    rw [recast, map_id_recast]
    exact sound.distinct
  told := by
    have ids : (t.recast name label role).cast.map (·.id) = t.cast.map (·.id) := map_id_recast ..
    have relabelled := sound.told.relabel name fun l h => (plain l h).2
    refine relabelled.mono ?_ ?_ <;> rw [ids]
    · exact List.Subset.refl _
    · exact relabelled.free

theorem steps_enter (t : Story) (id : String) : (t.enter id).steps = t.steps := by
  unfold enter
  split <;> rfl

theorem steps_enterAll (t : Story) (ids : List String) : (ids.foldl enter t).steps = t.steps := by
  induction ids generalizing t with
  | nil => rfl
  | cons id ids ih => rw [List.foldl_cons, ih, steps_enter]

theorem length_steps_tell_le (t : Story) (s : Statement) :
    (t.tell s).steps.length ≤ t.steps.length + if s.isStep then 1 else 0 := by
  cases s with
  | participant id label role => simp [tell, recast, steps_enter, Statement.isStep]
  | message source target arrow label => simp [tell, happen, steps_enter, Statement.isStep]
  | note placement participants text =>
    simp only [tell, Statement.isStep, if_true]
    split
    · simp [steps_enterAll]
    · simp [happen, steps_enterAll]

theorem isSound_happen (sound : t.IsSound) {s : Step} (fits : s.Fits t) : (t.happen s).IsSound :=
  ⟨sound.cast, sound.distinct, .snoc sound.told fits⟩

/-- A sound statement keeps a story sound. -/
theorem isSound_tell (sound : t.IsSound) {s : Statement} (said : s.IsSound) : (t.tell s).IsSound := by
  cases s with
  | participant id label role =>
    exact isSound_recast (isSound_enter sound said.1) id said.2 role
  | message source target arrow label =>
    obtain ⟨word, word', tight⟩ := said
    refine isSound_happen (isSound_enter (isSound_enter sound word) word') ⟨⟨word, ?_⟩,
      ⟨word', mem_names_enter _ target⟩, ⟨arrow, rfl⟩, ?_⟩
    · exact names_subset_enter _ target (mem_names_enter t source)
    · cases label with
      | none => rfl
      | some l => exact tight l rfl
  | note placement participants text =>
    obtain ⟨some, words, tight⟩ := said
    have there := isSound_enterAll sound words
    simp only [tell]
    split
    · exact there
    · next free =>
      exact isSound_happen there ⟨⟨rfl, free⟩, ⟨placement, rfl⟩,
        ⟨some, fun i h => ⟨words i h, mem_names_enterAll t participants i h⟩⟩, tight⟩

/-! ### Runs of statements -/

theorem isSound_foldl_tell (sound : t.IsSound) {statements : List Statement}
    (said : ∀ s ∈ statements, s.IsSound) : (statements.foldl tell t).IsSound := by
  induction statements generalizing t with
  | nil => exact sound
  | cons s statements ih =>
    rw [List.forall_mem_cons] at said
    exact ih (isSound_tell sound said.1) said.2

theorem length_steps_foldl_tell_le (t : Story) (statements : List Statement) :
    (statements.foldl tell t).steps.length ≤
      t.steps.length + statements.countP Statement.isStep := by
  induction statements generalizing t with
  | nil => exact Nat.le_refl _
  | cons s statements ih =>
    have first := length_steps_tell_le t s
    have others := ih (t.tell s)
    rw [List.foldl_cons, List.countP_cons]
    omega

end Story

/-! ### Told again -/

/-- On one line, as it is printed. -/
def Member.flat (m : Member) : Member := { m with label := Text.oneLine m.label }

def Step.flat : Step → Step
  | .message source target kind label => .message source target kind (Text.oneLine label)
  | .note id placement participants text => .note id placement participants (Text.oneLine text)

/-- The declaration of a participant; a label that is the id is left out. -/
def Member.statement (m : Member) : Statement :=
  .participant m.id (if m.label = "" ∨ m.label = m.id then none else some (Text.oneLine m.label))
    (Role.ofKeyword m.role)

def Step.statement : Step → Statement
  | .message source target kind label =>
    .message source target (Arrow.ofKey kind) (Reader.nonEmpty (Text.oneLine label))
  | .note _ placement participants text =>
    .note (Placement.ofText placement) participants (Text.oneLine text)

/-- The line of a participant. -/
def Member.text (m : Member) : String :=
  let start := (Role.ofKeyword m.role).keyword ++ " " ++ m.id
  if m.label = "" ∨ m.label = m.id then start else start ++ " as " ++ Text.oneLine m.label

/-- The line of a message or note; a note that names nobody has none. -/
def Step.text? : Step → Option String
  | .message source target kind label =>
    let start := source ++ (Arrow.ofKey kind).token ++ target
    some (if Text.isBlankText label then start else start ++ ": " ++ Text.oneLine label)
  | .note _ placement participants text =>
    match participants with
    | [] => none
    | ids => some ("Note " ++ (Placement.ofText placement).text ++ " " ++ ",".intercalate ids ++ ": " ++
        Text.oneLine text)

theorem Arrow.ofKey_key (a : Arrow) : Arrow.ofKey a.key = a := by cases a <;> decide

theorem Role.ofKeyword_keyword (r : Role) : Role.ofKeyword (some r.keyword) = r := by
  cases r <;> decide

theorem Placement.ofText_text (p : Placement) : Placement.ofText (some p.text) = p := by
  cases p <;> decide

theorem getD_nonEmpty (s : String) : (Reader.nonEmpty s).getD "" = s := by
  unfold Reader.nonEmpty
  split
  · next none => exact none.symm
  · rfl

namespace Story

def flat (t : Story) : Story := ⟨t.cast.map Member.flat, t.steps.map Step.flat⟩

/-- A story as it is printed: every participant, then what happens. -/
def statements (t : Story) : List Statement :=
  t.cast.map Member.statement ++ t.steps.map Step.statement

theorem noteIds_flat (steps : List Step) : noteIds (steps.map Step.flat) = noteIds steps :=
  noteIds_map (fun s => by cases s <;> rfl) steps

theorem names_flat (t : Story) : t.flat.names = t.names := by
  rw [names, flat, noteIds_flat, List.map_map]
  rfl

theorem nextNote_flat (t : Story) : t.flat.nextNote = t.nextNote := by
  rw [nextNote, flat, noteIds_flat, ← nextNote]

/-- A participant that is declared anew comes last. -/
theorem tell_member {cast : List Member} {m : Member} (sound : m.IsSound)
    (absent : m.id ∉ cast.map (·.id)) :
    tell ⟨cast, []⟩ m.statement = ⟨cast ++ [m.flat], []⟩ := by
  obtain ⟨r, role⟩ := sound.role
  have others : cast.map (Member.recast m.id
      (if m.label = "" ∨ m.label = m.id then none else some (Text.oneLine m.label)) r) = cast := by
    conv => rhs; rw [← List.map_id cast]
    apply List.map_congr_left
    intro other there
    have apart : other.id ≠ m.id := fun same => absent (same ▸ List.mem_map_of_mem there)
    simp [Member.recast, apart]
  have entered : enter ⟨cast, []⟩ m.id = ⟨cast ++ [⟨m.id, some Role.participant.keyword, m.id⟩], []⟩ := by
    unfold enter
    rw [if_neg]
    simpa [names, noteIds] using absent
  have shown : (if m.label = "" ∨ m.label = m.id then none else some (Text.oneLine m.label)).getD m.id =
      Text.oneLine m.label := by
    split
    · next same =>
      have word := sound.word.oneLine
      rw [same.resolve_left sound.some, word]
      rfl
    · rfl
  simp only [Member.statement, tell, role, Role.ofKeyword_keyword, entered, recast, List.map_append,
    others, List.map_cons, List.map_nil, Member.recast, if_true, shown, Member.flat]

theorem foldl_tell_cast {before cast : List Member} (sound : ∀ m ∈ cast, m.IsSound)
    (distinct : ((before ++ cast).map (·.id)).Nodup) :
    (cast.map Member.statement).foldl tell ⟨before, []⟩ = ⟨before ++ cast.map Member.flat, []⟩ := by
  induction cast generalizing before with
  | nil => simp
  | cons m cast ih =>
    rw [List.forall_mem_cons] at sound
    have absent : m.id ∉ before.map (·.id) := by
      rw [List.map_append, List.nodup_append] at distinct
      exact fun there => distinct.2.2 _ there m.id (by simp) rfl
    have same : (before ++ [m.flat] ++ cast).map (·.id) = (before ++ m :: cast).map (·.id) := by
      simp [Member.flat]
    rw [List.map_cons, List.foldl_cons, tell_member sound.1 absent, ih sound.2 (same ▸ distinct)]
    simp

/-- Among those who are there already, a step adds itself and nothing else. -/
theorem tell_step {t : Story} {s : Step} (fits : s.Fits t) :
    t.flat.tell s.statement = t.flat.happen s.flat := by
  cases s with
  | message source target kind label =>
    obtain ⟨⟨-, there⟩, ⟨-, there'⟩, ⟨arrow, rfl⟩, -⟩ := fits
    rw [← names_flat] at there there'
    simp only [Step.statement, tell, enter_of_mem there, enter_of_mem there', Arrow.ofKey_key,
      getD_nonEmpty, Step.flat]
  | note id placement participants text =>
    obtain ⟨⟨rfl, free⟩, ⟨place, rfl⟩, ⟨-, among⟩, -⟩ := fits
    have there : participants.foldl enter t.flat = t.flat := by
      apply enterAll_of_mem
      rw [names_flat]
      exact fun i h => (among i h).2
    simp only [Step.statement, tell, there, Placement.ofText_text, names_flat, nextNote_flat,
      if_neg free, Step.flat]

theorem foldl_tell_steps {cast : List Member} {steps : List Step} (told : Told cast steps) :
    (steps.map Step.statement).foldl tell (flat ⟨cast, []⟩) = flat ⟨cast, steps⟩ := by
  induction told with
  | nil => rfl
  | @snoc steps s before fits ih =>
    rw [List.map_append, List.foldl_append, ih]
    refine (tell_step fits).trans ?_
    simp [flat, happen]

/-- Told again from the start, a sound story comes out the same, each text on its line. -/
theorem foldl_tell_statements {t : Story} (sound : t.IsSound) :
    t.statements.foldl tell empty = t.flat := by
  have declared := @foldl_tell_cast [] t.cast sound.cast (by simpa using sound.distinct)
  rw [statements, List.foldl_append, empty, declared]
  exact foldl_tell_steps sound.told

/-- Declarations are no steps. -/
theorem countP_members (cast : List Member) : (cast.map Member.statement).countP Statement.isStep = 0 := by
  rw [List.countP_eq_zero, List.forall_mem_map]
  exact fun m _ => Bool.false_ne_true

theorem countP_statements (t : Story) : t.statements.countP Statement.isStep = t.steps.length := by
  have all : (t.steps.map Step.statement).countP Statement.isStep = t.steps.length := by
    rw [List.countP_map, List.countP_eq_length]
    intro s _
    cases s <;> rfl
  rw [statements, List.countP_append, countP_members, all, Nat.zero_add]

end Story
end DiagramText.Sequence
