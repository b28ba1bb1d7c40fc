import DiagramText.Outline

/-! Forests under outlines. Whatever the lists of the containers say, a walk visits a forest: it
enters keys in order, passes over those that have no element or have been seen, and puts what a
container lists inside it. `Explores` is that search as a relation; every search has a forest, and
the walk is the outline of it. -/
namespace DiagramText.Outline

/-- The element that a line of an outline brings in. -/
def Item.element? : Item → Option Element
  | .leaf e _ => some e
  | .opens e _ => some e
  | .closes _ => none

/-- Elements one below the other; a group has a forest inside. -/
inductive Forest where
  | nil
  | leaf (e : Element) (rest : Forest)
  | group (e : Element) (inside rest : Forest)
deriving DecidableEq, Repr

namespace Forest

/-- The outline of a forest that stands at a depth. -/
def items (depth : Nat) : Forest → List Item
  | nil => []
  | leaf e rest => .leaf e depth :: rest.items depth
  | group e inside rest =>
    .opens e depth :: (inside.items (depth + 1) ++ .closes depth :: rest.items depth)

/-- All the elements, a group before what is inside. -/
def preorder : Forest → List Element
  | nil => []
  | leaf e rest => e :: rest.preorder
  | group e inside rest => e :: (inside.preorder ++ rest.preorder)

def ids (f : Forest) : List String := f.preorder.map (·.id)

/-- The ids of the elements that stand inside no group. -/
def tops : Forest → List String
  | nil => []
  | leaf e rest => e.id :: rest.tops
  | group e _ rest => e.id :: rest.tops

@[simp] theorem ids_nil : ids nil = [] := rfl
@[simp] theorem ids_leaf (e : Element) (rest : Forest) : ids (leaf e rest) = e.id :: rest.ids := rfl
@[simp] theorem ids_group (e : Element) (inside rest : Forest) :
    ids (group e inside rest) = e.id :: (inside.ids ++ rest.ids) := by simp [ids, preorder]

theorem tops_subset_ids (f : Forest) : f.tops ⊆ f.ids := by
  induction f with
  | nil => exact List.Subset.refl _
  | leaf e rest ih => exact List.cons_subset_cons _ ih
  | group e inside rest _ ih =>
    rw [ids_group]
    exact List.cons_subset_cons _ (List.Subset.trans ih (List.subset_append_right ..))

/-- The elements of an outline are those of the forest, in its order. -/
theorem filterMap_items (f : Forest) (depth : Nat) :
    (f.items depth).filterMap Item.element? = f.preorder := by
  induction f generalizing depth with
  | nil => rfl
  | leaf e rest ih => simp [items, preorder, Item.element?, ih]
  | group e inside rest inner outer => simp [items, preorder, List.filterMap_cons, Item.element?, inner, outer]

/-- What holds of the line of every element, and of the lines that close, holds of every line. -/
theorem forall_items {P : Item → Prop} {f : Forest} (leaf : ∀ e ∈ f.preorder, ∀ depth, P (.leaf e depth))
    (opens : ∀ e ∈ f.preorder, ∀ depth, P (.opens e depth)) (closes : ∀ depth, P (.closes depth))
    (depth : Nat) : ∀ item ∈ f.items depth, P item := by
  induction f generalizing depth with
  | nil => simp [items]
  | leaf e rest ih =>
    rw [preorder, List.forall_mem_cons] at leaf opens
    rw [items, List.forall_mem_cons]
    exact ⟨leaf.1 depth, ih leaf.2 opens.2 depth⟩
  | group e inside rest inner outer =>
    rw [preorder, List.forall_mem_cons, List.forall_mem_append] at leaf opens
    rw [items, List.forall_mem_cons, List.forall_mem_append, List.forall_mem_cons]
    exact ⟨opens.1 depth, inner leaf.2.1 opens.2.1 (depth + 1), closes depth,
      outer leaf.2.2 opens.2.2 depth⟩

end Forest

/-! ### The search -/

/-- The forest that is found below some keys when some ids have been seen. -/
inductive Explores (table : Table Element) (skip : Element → Bool) :
    List String → List String → Forest → Prop where
  | done {visited} : Explores table skip visited [] .nil
  | absent {visited key keys f} : table.get? key = none →
      Explores table skip visited keys f → Explores table skip visited (key :: keys) f
  | passed {visited key keys e f} : table.get? key = some e → skip e = true ∨ e.id ∈ visited →
      Explores table skip visited keys f → Explores table skip visited (key :: keys) f
  | leaf {visited key keys e rest} : table.get? key = some e → skip e = false →
      e.id ∉ visited → e.kind ≠ .container → Explores table skip (e.id :: visited) keys rest →
      Explores table skip visited (key :: keys) (.leaf e rest)
  | group {visited key keys e inside rest} : table.get? key = some e → skip e = false →
      e.id ∉ visited → e.kind = .container →
      Explores table skip (e.id :: visited) (childKeys table e) inside →
      Explores table skip (inside.ids.reverse ++ e.id :: visited) keys rest →
      Explores table skip visited (key :: keys) (.group e inside rest)

variable {table : Table Element} {skip : Element → Bool} {visited keys : List String} {f : Forest}

/-- Seeing more leaves less to be seen. -/
theorem unvisited_append_le (table : Table Element) (more visited : List String) :
    (unvisited table (more ++ visited)).length ≤ (unvisited table visited).length := by
  have fewer : unvisited table (more ++ visited) =
      (unvisited table visited).filter fun e => !more.contains e.id := by
    simp only [unvisited, List.filter_filter]
    congr 1
    funext e
    simp only [List.contains_append, Bool.not_or]
  rw [fewer]
  exact List.length_filter_le ..

theorem exists_explores (table : Table Element) (skip : Element → Bool)
    (visited keys : List String) : ∃ f, Explores table skip visited keys f := by
  match keys with
  | [] => exact ⟨_, .done⟩
  | key :: keys =>
    cases found : table.get? key with
    | none =>
      obtain ⟨f, below⟩ := exists_explores table skip visited keys
      exact ⟨f, .absent found below⟩
    | some e =>
      by_cases seen : skip e = true ∨ e.id ∈ visited
      · obtain ⟨f, below⟩ := exists_explores table skip visited keys
        exact ⟨f, .passed found seen below⟩
      · rw [not_or, Bool.not_eq_true] at seen
        have fewer := unvisited_lt (Table.mem_values_of_get? found) seen.2
        by_cases box : e.kind = .container
        · obtain ⟨inside, within⟩ := exists_explores table skip (e.id :: visited) (childKeys table e)
          have still := unvisited_append_le table inside.ids.reverse (e.id :: visited)
          obtain ⟨rest, after⟩ := exists_explores table skip (inside.ids.reverse ++ e.id :: visited) keys
          exact ⟨_, .group found seen.1 seen.2 box within after⟩
        · obtain ⟨rest, after⟩ := exists_explores table skip (e.id :: visited) keys
          exact ⟨_, .leaf found seen.1 seen.2 box after⟩
termination_by ((unvisited table visited).length, keys.length)
decreasing_by
  · exact .right _ (Nat.lt_succ_self _)
  · exact .right _ (Nat.lt_succ_self _)
  · exact .left _ _ fewer
  · exact .left _ _ (Nat.lt_of_le_of_lt still fewer)
  · exact .left _ _ fewer

/-! ### The walk -/

variable {key : String} {e : Element} {depth : Nat} {tasks : List Task}

theorem walk_leave : walk table skip visited (.leave depth :: tasks) =
    .closes depth :: walk table skip visited tasks := by
  rw [walk]

theorem walk_absent (found : table.get? key = none) :
    walk table skip visited (.enter key depth :: tasks) = walk table skip visited tasks := by
  rw [walk]
  split
  · rfl
  · next h => rw [found] at h; cases h

theorem walk_passed (found : table.get? key = some e) (seen : skip e = true ∨ e.id ∈ visited) :
    walk table skip visited (.enter key depth :: tasks) = walk table skip visited tasks := by
  rw [walk]
  split
  · rfl
  · next d h =>
    obtain rfl : e = d := Option.some.inj (found.symm.trans h)
    rw [dif_pos seen]

theorem walk_leaf (found : table.get? key = some e) (kept : skip e = false)
    (fresh : e.id ∉ visited) (box : e.kind ≠ .container) :
    walk table skip visited (.enter key depth :: tasks) =
      .leaf e depth :: walk table skip (e.id :: visited) tasks := by
  rw [walk]
  split
  · next h => rw [found] at h; cases h
  · next d h =>
    obtain rfl : e = d := Option.some.inj (found.symm.trans h)
    rw [dif_neg (by simp [kept, fresh]), if_neg box]

theorem walk_group (found : table.get? key = some e) (kept : skip e = false)
    (fresh : e.id ∉ visited) (box : e.kind = .container) :
    walk table skip visited (.enter key depth :: tasks) =
      .opens e depth :: walk table skip (e.id :: visited)
        ((childKeys table e).map (.enter · (depth + 1)) ++ .leave depth :: tasks) := by
  rw [walk]
  split
  · next h => rw [found] at h; cases h
  · next d h =>
    obtain rfl : e = d := Option.some.inj (found.symm.trans h)
    rw [dif_neg (by simp [kept, fresh]), if_pos box]

/-- The walk over some keys is the outline of the forest below them. -/
theorem walk_of_explores (explored : Explores table skip visited keys f) (depth : Nat)
    (tasks : List Task) :
    walk table skip visited (keys.map (.enter · depth) ++ tasks) =
      f.items depth ++ walk table skip (f.ids.reverse ++ visited) tasks := by
  induction explored generalizing depth tasks with
  | done => rfl
  | absent found _ ih => exact (walk_absent found).trans (ih depth tasks)
  | passed found seen _ ih => exact (walk_passed found seen).trans (ih depth tasks)
  | leaf found kept fresh box _ ih =>
    rw [List.map_cons, List.cons_append, walk_leaf found kept fresh box, ih]
    simp [Forest.items]
  | group found kept fresh box _ _ inner outer =>
    rw [List.map_cons, List.cons_append, walk_group found kept fresh box, inner, walk_leave, outer]
    simp [Forest.items]

/-! ### What a search finds -/

/-- Every element is found once, and none that had been seen. -/
theorem nodup_of_explores (explored : Explores table skip visited keys f) :
    f.ids.Nodup ∧ ∀ id ∈ f.ids, id ∉ visited := by
  induction explored with
  | done => simp
  | absent _ _ ih => exact ih
  | passed _ _ _ ih => exact ih
  | leaf _ _ fresh _ _ ih =>
    obtain ⟨distinct, unseen⟩ := ih
    simp only [List.mem_cons, not_or] at unseen
    rw [Forest.ids_leaf, List.nodup_cons]
    refine ⟨⟨fun h => (unseen _ h).1 rfl, distinct⟩, ?_⟩
    simpa [fresh] using fun id h => (unseen id h).2
  | group _ _ fresh _ _ _ inner outer =>
    obtain ⟨distinct, unseen⟩ := inner
    obtain ⟨apart, later⟩ := outer
    simp only [List.mem_append, List.mem_reverse, List.mem_cons, not_or] at unseen later
    rw [Forest.ids_group, List.nodup_cons, List.nodup_append]
    refine ⟨⟨?_, distinct, apart, fun a ha b hb => ?_⟩, ?_⟩
    · rw [List.mem_append]
      exact fun h => h.elim (fun h => (unseen _ h).1 rfl) fun h => (later _ h).2.1 rfl
    · rintro rfl
      exact (later a hb).1 ha
    · simp only [List.mem_cons, List.mem_append]
      rintro id (rfl | h | h)
      · exact fresh
      · exact (unseen id h).2
      · exact (later id h).2.2

/-- What is found is in the table. -/
theorem mem_of_explores (explored : Explores table skip visited keys f) :
    ∀ e ∈ f.preorder, ∃ key, table.get? key = some e := by
  induction explored with
  | done => simp [Forest.preorder]
  | absent _ _ ih => exact ih
  | passed _ _ _ ih => exact ih
  | leaf found _ _ _ _ ih => simpa [Forest.preorder] using ⟨⟨_, found⟩, ih⟩
  | group found _ _ _ _ _ inner outer =>
    simp only [Forest.preorder, List.mem_cons, List.mem_append]
    rintro x (rfl | h | h)
    · exact ⟨_, found⟩
    · exact inner x h
    · exact outer x h

/-- A key is found unless it has no element, is skipped, or has been seen. -/
theorem reaches_of_explores (explored : Explores table skip visited keys f) :
    ∀ key ∈ keys, ∀ x, table.get? key = some x → skip x = false → x.id ∈ f.ids ∨ x.id ∈ visited := by
  induction explored with
  | done => simp
  | absent found _ ih =>
    rw [List.forall_mem_cons]
    refine ⟨fun x there => ?_, ih⟩
    rw [found] at there
    cases there
  | passed found seen _ ih =>
    rw [List.forall_mem_cons]
    refine ⟨fun x there kept => ?_, ih⟩
    obtain rfl := Option.some.inj (found.symm.trans there)
    exact .inr (seen.resolve_left (by simp [kept]))
  | leaf found _ _ _ _ ih =>
    rw [List.forall_mem_cons]
    refine ⟨fun x there _ => ?_, fun key asked x there kept => ?_⟩
    · obtain rfl := Option.some.inj (found.symm.trans there)
      exact .inl (List.mem_cons_self ..)
    · simpa [or_assoc, or_left_comm] using ih key asked x there kept
  | group found _ _ _ _ _ _ ih =>
    rw [List.forall_mem_cons]
    refine ⟨fun x there _ => ?_, fun key asked x there kept => ?_⟩
    · obtain rfl := Option.some.inj (found.symm.trans there)
      exact .inl (by simp)
    · have reached := ih key asked x there kept
      simp only [List.mem_append, List.mem_reverse, List.mem_cons] at reached
      rcases reached with h | h | h | h <;> simp [h]

/-- What a container lists is found with it. -/
theorem closed_of_explores (explored : Explores table skip visited keys f) :
    ∀ box ∈ f.preorder, box.kind = .container → ∀ key ∈ childKeys table box,
      ∀ x, table.get? key = some x → skip x = false → x.id ∈ f.ids ∨ x.id ∈ visited := by
  induction explored with
  | done => simp [Forest.preorder]
  | absent _ _ ih => exact ih
  | passed _ _ _ ih => exact ih
  | leaf _ _ _ other _ ih =>
    intro box found isBox key listed x there kept
    rcases List.mem_cons.1 found with rfl | found
    · exact absurd isBox other
    · simpa [or_assoc, or_left_comm] using ih box found isBox key listed x there kept
  | group _ _ _ _ within _ inner outer =>
    intro box found isBox key listed x there kept
    simp only [Forest.preorder, List.mem_cons, List.mem_append] at found
    rcases found with rfl | found | found
    · have reached := reaches_of_explores within key listed x there kept
      rw [List.mem_cons] at reached
      rcases reached with h | h | h <;> simp [h]
    · have reached := inner box found isBox key listed x there kept
      rw [List.mem_cons] at reached
      rcases reached with h | h | h <;> simp [h]
    · have reached := outer box found isBox key listed x there kept
      simp only [List.mem_append, List.mem_reverse, List.mem_cons] at reached
      rcases reached with h | h | h | h <;> simp [h]

end DiagramText.Outline
