/-! Tables: values under distinct string keys, in the order in which the keys were first put in.
`entries` is the view; each operation says what it does to it. -/
namespace DiagramText

structure Table (α : Type) where
  entries : List (String × α)
  nodup : (entries.map Prod.fst).Nodup
deriving DecidableEq

namespace Table

variable {α β : Type}

instance : EmptyCollection (Table α) := ⟨⟨[], List.Pairwise.nil⟩⟩
instance : Inhabited (Table α) := ⟨∅⟩
instance [Repr α] : Repr (Table α) := ⟨fun t n => reprPrec t.entries n⟩

def keys (t : Table α) : List String := t.entries.map Prod.fst
def values (t : Table α) : List α := t.entries.map Prod.snd
def size (t : Table α) : Nat := t.entries.length
def isEmpty (t : Table α) : Bool := t.entries.isEmpty

def get? (t : Table α) (k : String) : Option α := t.entries.lookup k
def contains (t : Table α) (k : String) : Bool := (t.get? k).isSome

theorem ext {s t : Table α} (h : s.entries = t.entries) : s = t := by
  cases s; cases t; simp_all

/-! ### Putting in -/

def put (k : String) (v : α) : List (String × α) → List (String × α)
  | [] => [(k, v)]
  | (l, w) :: es => if l = k then (k, v) :: es else (l, w) :: put k v es

theorem keys_put (k : String) (v : α) (es : List (String × α)) :
    (put k v es).map Prod.fst =
      if k ∈ es.map Prod.fst then es.map Prod.fst else es.map Prod.fst ++ [k] := by
  induction es with
  | nil => simp [put]
  | cons e es ih =>
    obtain ⟨l, w⟩ := e
    by_cases h : l = k
    · simp [put, h]
    · have h' : ¬ k = l := fun e => h e.symm
      simp only [put, h, if_false, List.map_cons, ih, List.mem_cons, h', false_or]
      split <;> simp

/-- A new key goes to the end; a key that is there keeps its place and takes the new value. -/
def insert (t : Table α) (k : String) (v : α) : Table α where
  entries := put k v t.entries
  nodup := by
    rw [keys_put]
    split
    · exact t.nodup
    · next h =>
      rw [List.nodup_append]
      exact ⟨t.nodup, by simp, fun a ha b hb => by simp at hb; exact fun e => h (hb ▸ e ▸ ha)⟩

def ofList (es : List (String × α)) : Table α := es.foldl (fun t (k, v) => t.insert k v) ∅

/-! ### Changing values -/

theorem keys_map (es : List (String × α)) (f : String → α → β) :
    (es.map fun (l, w) => (l, f l w)).map Prod.fst = es.map Prod.fst := by
  simp [Function.comp_def]

/-- Changes the value under one key. -/
def modify (t : Table α) (k : String) (f : α → α) : Table α where
  entries := t.entries.map fun (l, w) => (l, if l = k then f w else w)
  nodup := by rw [keys_map t.entries fun l w => if l = k then f w else w]; exact t.nodup

def mapValues (t : Table α) (f : α → β) : Table β where
  entries := t.entries.map fun (l, w) => (l, f w)
  nodup := by rw [keys_map t.entries fun _ w => f w]; exact t.nodup

/-! ### Taking out -/

theorem nodup_sublist {es fs : List (String × α)} (h : fs.Sublist es)
    (he : (es.map Prod.fst).Nodup) : (fs.map Prod.fst).Nodup :=
  List.Pairwise.sublist (h.map Prod.fst) he

def filter (t : Table α) (p : String → α → Bool) : Table α where
  entries := t.entries.filter fun (l, w) => p l w
  nodup := nodup_sublist List.filter_sublist t.nodup

/-- Takes a key out; the others keep their order. -/
def erase (t : Table α) (k : String) : Table α := t.filter fun l _ => l != k

/-- The last entry takes the place of the one that goes. -/
def fillGap (k : String) : List (String × α) → List (String × α)
  | [] => []
  | (l, w) :: es =>
    if l = k then
      match es.getLast? with
      | none => []
      | some last => last :: es.dropLast
    else (l, w) :: fillGap k es

theorem fillGap_perm (k : String) (es : List (String × α)) :
    ∃ fs, (fillGap k es).Perm fs ∧ fs.Sublist es := by
  induction es with
  | nil => exact ⟨[], .refl _, .refl _⟩
  | cons e es ih =>
    obtain ⟨l, w⟩ := e
    by_cases h : l = k
    · refine ⟨es, ?_, List.sublist_cons_self ..⟩
      simp only [fillGap, h, if_true]
      cases hl : es.getLast? with
      | none => simp_all
      | some last =>
        have : es.dropLast ++ [last] = es := by
          obtain ⟨ys, rfl⟩ := List.getLast?_eq_some_iff.1 hl
          simp
        conv => rhs; rw [← this]
        exact (List.perm_append_singleton last es.dropLast).symm
    · obtain ⟨fs, hp, hs⟩ := ih
      refine ⟨(l, w) :: fs, ?_, hs.cons_cons _⟩
      simp only [fillGap, h, if_false]
      exact hp.cons _

/-- Takes a key out; the last key moves into the gap. -/
def swapErase (t : Table α) (k : String) : Table α where
  entries := fillGap k t.entries
  nodup := by
    obtain ⟨fs, hp, hs⟩ := fillGap_perm k t.entries
    exact ((hp.map Prod.fst).nodup_iff).2 (nodup_sublist hs t.nodup)

/-! ### What the operations do to the view -/

@[simp] theorem entries_empty : (∅ : Table α).entries = [] := rfl
@[simp] theorem entries_insert (t : Table α) (k : String) (v : α) :
    (t.insert k v).entries = put k v t.entries := rfl
@[simp] theorem entries_modify (t : Table α) (k : String) (f : α → α) :
    (t.modify k f).entries = t.entries.map fun (l, w) => (l, if l = k then f w else w) := rfl
@[simp] theorem entries_filter (t : Table α) (p : String → α → Bool) :
    (t.filter p).entries = t.entries.filter fun (l, w) => p l w := rfl

theorem entries_erase (t : Table α) (k : String) :
    (t.erase k).entries = t.entries.filter fun p => p.1 ≠ k := by
  rw [erase, entries_filter]
  apply List.filter_congr
  intro p _
  rw [decide_not]
  rfl

/-- When keys are taken out one after the other, what has none of them stays, in its order. -/
theorem entries_foldl_erase (ks : List String) (t : Table α) :
    (ks.foldl erase t).entries = t.entries.filter fun p => p.1 ∉ ks := by
  induction ks generalizing t with
  | nil => exact (List.filter_eq_self.2 fun _ _ => by simp).symm
  | cons k ks ih =>
    rw [List.foldl_cons, ih, entries_erase, List.filter_filter]
    apply List.filter_congr
    intro p _
    by_cases h : p.1 = k <;> simp [h]

@[simp] theorem keys_modify (t : Table α) (k : String) (f : α → α) :
    (t.modify k f).keys = t.keys := keys_map t.entries fun l w => if l = k then f w else w

theorem keys_insert (t : Table α) (k : String) (v : α) :
    (t.insert k v).keys = if k ∈ t.keys then t.keys else t.keys ++ [k] :=
  keys_put k v t.entries

theorem put_of_not_mem {k : String} {es : List (String × α)} (h : k ∉ es.map Prod.fst) (v : α) :
    put k v es = es ++ [(k, v)] := by
  induction es with
  | nil => rfl
  | cons e es ih =>
    obtain ⟨l, w⟩ := e
    simp only [List.map_cons, List.mem_cons, not_or] at h
    have : ¬ l = k := fun e => h.1 e.symm
    simp [put, this, ih h.2]

theorem values_insert_of_not_mem {t : Table α} {k : String} (h : k ∉ t.keys) (v : α) :
    (t.insert k v).values = t.values ++ [v] := by
  rw [values, entries_insert, put_of_not_mem h, List.map_append, values]
  rfl

theorem mem_put {k : String} {v : α} {es : List (String × α)} {p : String × α} (h : p ∈ put k v es) :
    p = (k, v) ∨ p ∈ es := by
  induction es with
  | nil => exact .inl (by simpa [put] using h)
  | cons e es ih =>
    obtain ⟨l, w⟩ := e
    by_cases hl : l = k
    · simp only [put, hl, if_true, List.mem_cons] at h ⊢
      exact h.imp_right .inr
    · simp only [put, hl, if_false, List.mem_cons] at h ⊢
      rcases h with h | h
      · exact .inr (.inl h)
      · exact (ih h).imp_right .inr

theorem mem_values_insert {t : Table α} {k : String} {v w : α} (h : w ∈ (t.insert k v).values) :
    w = v ∨ w ∈ t.values := by
  obtain ⟨p, hp, rfl⟩ := List.mem_map.1 h
  rcases mem_put hp with rfl | hp
  · exact .inl rfl
  · exact .inr (List.mem_map_of_mem hp)

theorem put_put (k : String) (v w : α) (es : List (String × α)) :
    put k w (put k v es) = put k w es := by
  induction es with
  | nil => simp [put]
  | cons e es ih => by_cases h : e.1 = k <;> simp [put, h, ih]

/-- The last value that is put under a key is the one that stays. -/
theorem insert_insert (t : Table α) (k : String) (v w : α) :
    (t.insert k v).insert k w = t.insert k w := ext (put_put k v w t.entries)

/-- A change under a key that is not there is none. -/
theorem map_of_not_mem {k : String} {es : List (String × α)} (absent : k ∉ es.map Prod.fst)
    (f : α → α) : (es.map fun (l, w) => (l, if l = k then f w else w)) = es := by
  conv => rhs; rw [← List.map_id es]
  apply List.map_congr_left
  rintro ⟨l, w⟩ h
  have other : l ≠ k := by
    rintro rfl
    exact absent (List.mem_map.2 ⟨_, h, rfl⟩)
  simp [other]

/-! ### What is found afterwards -/

theorem lookup_cons (k l : String) (w : α) (es : List (String × α)) :
    ((l, w) :: es).lookup k = if k = l then some w else es.lookup k := by
  by_cases h : k = l
  · simp [h]
  · rw [List.lookup_cons, beq_false_of_ne h, if_neg h]

theorem lookup_isSome_iff {k : String} {es : List (String × α)} :
    (es.lookup k).isSome ↔ k ∈ es.map Prod.fst := by
  induction es with
  | nil => simp
  | cons e es ih => rw [lookup_cons]; split <;> simp_all

theorem contains_iff {t : Table α} {k : String} : t.contains k ↔ k ∈ t.keys := lookup_isSome_iff

theorem mem_keys_of_get? {t : Table α} {k : String} {v : α} (there : t.get? k = some v) :
    k ∈ t.keys := contains_iff.1 (Option.isSome_iff_exists.2 ⟨v, there⟩)

theorem get?_eq_none_iff {t : Table α} {k : String} : t.get? k = none ↔ k ∉ t.keys := by
  rw [← contains_iff, contains, Option.not_isSome_iff_eq_none]

theorem contains_eq_false_iff {t : Table α} {k : String} : t.contains k = false ↔ k ∉ t.keys := by
  rw [← Bool.not_eq_true, contains_iff]

theorem lookup_put (k l : String) (v : α) (es : List (String × α)) :
    (put k v es).lookup l = if l = k then some v else es.lookup l := by
  induction es with
  | nil => simp [put, lookup_cons]
  | cons e es ih => grind [put, lookup_cons]

theorem get?_insert (t : Table α) (k l : String) (v : α) :
    (t.insert k v).get? l = if l = k then some v else t.get? l := lookup_put k l v t.entries

theorem get?_modify (t : Table α) (k l : String) (f : α → α) :
    (t.modify k f).get? l = if l = k then (t.get? l).map f else t.get? l := by
  simp only [get?, entries_modify]
  induction t.entries with
  | nil => simp
  | cons e es ih => simp only [List.map_cons, lookup_cons, ih]; grind

theorem get?_erase (t : Table α) (k l : String) :
    (t.erase k).get? l = if l = k then none else t.get? l := by
  simp only [get?, erase, entries_filter]
  induction t.entries with
  | nil => simp
  | cons e es ih => grind [lookup_cons]

theorem contains_erase_of_ne {t : Table α} {k l : String} (apart : l ≠ k) (there : t.contains l) :
    (t.erase k).contains l := by
  unfold contains at there ⊢
  rwa [get?_erase, if_neg apart]

theorem mem_of_lookup {k : String} {v : α} {es : List (String × α)} (h : es.lookup k = some v) :
    (k, v) ∈ es := by
  induction es with
  | nil => simp at h
  | cons e es ih =>
    obtain ⟨l, w⟩ := e
    rw [lookup_cons] at h
    split at h
    · simp_all
    · exact List.mem_cons_of_mem _ (ih h)

theorem lookup_of_mem {k : String} {v : α} {es : List (String × α)}
    (distinct : (es.map Prod.fst).Nodup) (h : (k, v) ∈ es) : es.lookup k = some v := by
  induction es with
  | nil => simp at h
  | cons e es ih =>
    obtain ⟨l, w⟩ := e
    rw [List.map_cons, List.nodup_cons] at distinct
    rw [lookup_cons]
    rcases List.mem_cons.1 h with same | later
    · simp_all
    · have other : k ≠ l := by
        rintro rfl
        exact distinct.1 (List.mem_map.2 ⟨_, later, rfl⟩)
      rw [if_neg other, ih distinct.2 later]

theorem get?_eq_some_iff {t : Table α} {k : String} {v : α} :
    t.get? k = some v ↔ (k, v) ∈ t.entries := ⟨mem_of_lookup, lookup_of_mem t.nodup⟩

theorem mem_values_iff {t : Table α} {v : α} : v ∈ t.values ↔ ∃ p ∈ t.entries, p.2 = v := by
  simp [values]

theorem mem_values_of_get? {t : Table α} {k : String} {v : α} (h : t.get? k = some v) :
    v ∈ t.values := mem_values_iff.2 ⟨_, get?_eq_some_iff.1 h, rfl⟩

end Table
end DiagramText
