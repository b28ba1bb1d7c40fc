import DiagramText.Editor.Basic
import Mathlib.Data.List.Nodup
import Mathlib.Data.List.TakeWhile

/-! Patches. A patch sets the values of the keys that it names and takes out those that it names with
`null`; no other value changes. The order is another matter: a key that is taken out leaves its place to
the last one, so that the others stay in their order only if there is at most one behind it. -/
namespace DiagramText

open Table (put fillGap)

namespace Table

variable {α : Type} {s t : Table α} {k : String}

/-- The entries behind a key. -/
def behind (t : Table α) (k : String) : List (String × α) := (t.entries.dropWhile fun p => p.1 ≠ k).tail

/-! ### Tables as what is found in them -/

theorem nodup_entries (t : Table α) : t.entries.Nodup := List.Nodup.of_map Prod.fst t.nodup

/-- Tables in which the same is found have the same entries in some order. -/
theorem perm_of_get? (same : ∀ k, s.get? k = t.get? k) : s.entries.Perm t.entries := by
  rw [List.perm_ext_iff_of_nodup s.nodup_entries t.nodup_entries]
  rintro ⟨k, v⟩
  rw [← get?_eq_some_iff, ← get?_eq_some_iff, same]

theorem get?_of_perm (perm : s.entries.Perm t.entries) (k : String) : s.get? k = t.get? k := by
  apply Option.ext
  intro v
  rw [get?_eq_some_iff, get?_eq_some_iff, perm.mem_iff]

theorem entries_eq_filterMap (t : Table α) :
    t.entries = t.keys.filterMap fun k => (t.get? k).map (Prod.mk k) := by
  have found : ∀ p ∈ t.entries, (t.get? p.1).map (Prod.mk p.1) = some p := by
    intro p there
    rw [get?_eq_some_iff.2 there, Option.map_some]
  rw [keys, List.filterMap_map]
  exact (List.filterMap_some.symm.trans (List.filterMap_congr fun p there => (found p there).symm))

/-- The order of the keys and what is found under them are all there is to a table. -/
theorem eq_of_keys (keys : s.keys = t.keys) (same : ∀ k, s.get? k = t.get? k) : s = t := by
  apply ext
  rw [entries_eq_filterMap s, entries_eq_filterMap t, keys, funext same]

/-! ### A key that is taken out -/

theorem filter_of_absent {es : List (String × α)} (absent : k ∉ es.map Prod.fst) :
    es.filter (fun p => p.1 ≠ k) = es := by
  refine List.filter_eq_self.2 fun p there => decide_eq_true ?_
  rintro rfl
  exact absent (List.mem_map_of_mem there)

theorem fillGap_perm_filter {es : List (String × α)} (distinct : (es.map Prod.fst).Nodup) :
    (fillGap k es).Perm (es.filter fun p => p.1 ≠ k) := by
  induction es with
  | nil => exact .refl _
  | cons e es ih =>
    obtain ⟨l, w⟩ := e
    rw [List.map_cons, List.nodup_cons] at distinct
    by_cases same : l = k
    · subst same
      rw [fillGap, if_pos rfl, List.filter_cons_of_neg (by simp), filter_of_absent distinct.1]
      rcases List.eq_nil_or_concat es with rfl | ⟨front, last, rfl⟩
      · exact .refl _
      · simp only [List.concat_eq_append, List.getLast?_concat, List.dropLast_concat]
        exact (List.perm_append_singleton last front).symm
    · rw [fillGap, if_neg same, List.filter_cons_of_pos (by simpa using same)]
      exact (ih distinct.2).cons _

theorem perm_swapErase (t : Table α) (k : String) : (t.swapErase k).entries.Perm (t.erase k).entries := by
  rw [entries_erase]
  exact fillGap_perm_filter t.nodup

theorem get?_swapErase (t : Table α) (k l : String) :
    (t.swapErase k).get? l = if l = k then none else t.get? l := by
  rw [get?_of_perm (perm_swapErase t k), get?_erase]

/-- The last entry that takes the place of another goes before those between. -/
theorem fillGap_eq_filter_iff {es : List (String × α)} (distinct : (es.map Prod.fst).Nodup) :
    fillGap k es = es.filter (fun p => p.1 ≠ k) ↔
      (es.dropWhile fun p => p.1 ≠ k).tail.length ≤ 1 := by
  induction es with
  | nil => simp [fillGap]
  | cons e es ih =>
    obtain ⟨l, w⟩ := e
    rw [List.map_cons, List.nodup_cons] at distinct
    by_cases same : l = k
    · subst same
      rw [fillGap, if_pos rfl, List.filter_cons_of_neg (by simp), filter_of_absent distinct.1,
        List.dropWhile_cons_of_neg (by simp), List.tail_cons]
      rcases es with _ | ⟨x, _ | ⟨y, rest⟩⟩
      · simp
      · simp
      · have last : (x :: y :: rest).getLast? = some ((y :: rest).getLast (by simp)) := by
          rw [List.getLast?_eq_some_getLast (by simp), List.getLast_cons (by simp)]
        have other : (y :: rest).getLast (by simp) ≠ x := by
          intro own
          have apart := (List.nodup_cons.1 (List.Nodup.of_map Prod.fst distinct.2)).1
          exact apart (own ▸ List.getLast_mem _)
        simp [last, other]
    · rw [fillGap, if_neg same, List.filter_cons_of_pos (by simpa using same),
        List.dropWhile_cons_of_pos (by simpa using same), List.cons.injEq, ih distinct.2]
      exact and_iff_right rfl

/-- The others stay in their order if and only if at most one is behind the key that goes. -/
theorem swapErase_eq_erase_iff : t.swapErase k = t.erase k ↔ (t.behind k).length ≤ 1 := by
  have views : t.swapErase k = t.erase k ↔ (t.swapErase k).entries = (t.erase k).entries :=
    ⟨congrArg entries, ext⟩
  rw [views, entries_erase, behind, ← fillGap_eq_filter_iff t.nodup]
  rfl

end Table

/-! ### Changes one after the other -/

/-- A value is set; `null` takes the key out, and the last key moves into the gap. -/
def change (t : Table Json) (p : String × Json) : Table Json :=
  if p.2.isNull then t.swapErase p.1 else t.insert p.1 p.2

/-- The same change, with every other key in its place. -/
def changeInPlace (t : Table Json) (p : String × Json) : Table Json :=
  if p.2.isNull then t.erase p.1 else t.insert p.1 p.2

theorem mergeValues_eq (changes t : Table Json) : mergeValues changes t = changes.entries.foldl change t := rfl

/-- What changes make of an entry. -/
def revised (changes : List (String × Json)) (p : String × Json) : Option (String × Json) :=
  match changes.lookup p.1 with
  | none => some p
  | some v => if v.isNull then none else some (p.1, v)

/-- What changes bring in, in their order. -/
def added (changes : List (String × Json)) (t : Table Json) : List (String × Json) :=
  changes.filter fun p => !p.2.isNull && !t.contains p.1

/-- What is there and taken out. -/
def removed (changes : List (String × Json)) (t : Table Json) : List (String × Json) :=
  changes.filter fun p => p.2.isNull && t.contains p.1

/-- The entries as a patch describes them: what was there in its place, then what is new. -/
def patched (changes : List (String × Json)) (t : Table Json) : List (String × Json) :=
  t.entries.filterMap (revised changes) ++ added changes t

/-- Whatever is taken out has at most one key behind it by then. -/
def Steady : List (String × Json) → Table Json → Prop
  | [], _ => True
  | (k, v) :: changes, t =>
    (v.isNull → (t.behind k).length ≤ 1) ∧ Steady changes (changeInPlace t (k, v))

variable {changes : List (String × Json)} {s t : Table Json}

theorem lookup_eq_none_of_absent {k : String} (absent : k ∉ changes.map Prod.fst) :
    changes.lookup k = none := by
  rw [← Option.not_isSome_iff_eq_none, Table.lookup_isSome_iff]
  exact absent

theorem get?_change (t : Table Json) (p : String × Json) (k : String) : (change t p).get? k =
    if k = p.1 then (if p.2.isNull then none else some p.2) else t.get? k := by
  unfold change
  split
  · next null => rw [Table.get?_swapErase]
  · rw [Table.get?_insert]

theorem get?_changeInPlace (t : Table Json) (p : String × Json) (k : String) : (changeInPlace t p).get? k =
    if k = p.1 then (if p.2.isNull then none else some p.2) else t.get? k := by
  unfold changeInPlace
  split
  · rw [Table.get?_erase]
  · rw [Table.get?_insert]

/-- What is found after changes, however they treat the order. -/
theorem get?_foldl {f : Table Json → String × Json → Table Json}
    (each : ∀ t p k, (f t p).get? k = if k = p.1 then (if p.2.isNull then none else some p.2) else t.get? k)
    (distinct : (changes.map Prod.fst).Nodup) (t : Table Json) (k : String) :
    (changes.foldl f t).get? k =
      match changes.lookup k with
      | none => t.get? k
      | some v => if v.isNull then none else some v := by
  induction changes generalizing t with
  | nil => rfl
  | cons p changes ih =>
    rw [List.map_cons, List.nodup_cons] at distinct
    rw [List.foldl_cons, ih distinct.2, Table.lookup_cons, each]
    by_cases own : k = p.1
    · subst own
      simp only [lookup_eq_none_of_absent distinct.1, if_true]
    · simp only [own, if_false]

/-! ### Changes in place -/

theorem revised_cons_of_ne {p q : String × Json} (other : q.1 ≠ p.1) :
    revised (p :: changes) q = revised changes q := by
  rw [revised, Table.lookup_cons, if_neg other, ← revised]

theorem contains_changeInPlace_of_ne {p : String × Json} {k : String} (other : k ≠ p.1) :
    (changeInPlace t p).contains k = t.contains k := by
  rw [Table.contains, get?_changeInPlace, if_neg other, ← Table.contains]

theorem added_changeInPlace {p : String × Json} (fresh : p.1 ∉ changes.map Prod.fst) :
    added changes (changeInPlace t p) = added changes t := by
  refine List.filter_congr fun q there => ?_
  have other : q.1 ≠ p.1 := fun own => fresh (own ▸ List.mem_map_of_mem there)
  rw [contains_changeInPlace_of_ne other]

theorem revised_cons_self {p : String × Json} (v : Json) :
    revised (p :: changes) (p.1, v) = if p.2.isNull then none else some p := by
  rw [revised, Table.lookup_cons, if_pos rfl]

theorem revised_of_absent {p : String × Json} (fresh : p.1 ∉ changes.map Prod.fst) :
    revised changes p = some p := by
  rw [revised, lookup_eq_none_of_absent fresh]

theorem filterMap_revised_cons {p : String × Json} {es : List (String × Json)}
    (absent : p.1 ∉ es.map Prod.fst) :
    es.filterMap (revised (p :: changes)) = es.filterMap (revised changes) :=
  List.filterMap_congr fun _ there =>
    revised_cons_of_ne fun own => absent (own ▸ List.mem_map_of_mem there)

theorem filterMap_revised_filter {p : String × Json} (null : p.2.isNull) (es : List (String × Json)) :
    (es.filter fun q => q.1 ≠ p.1).filterMap (revised changes) = es.filterMap (revised (p :: changes)) := by
  rw [List.filterMap_filter]
  refine List.filterMap_congr fun q _ => ?_
  by_cases own : q.1 = p.1
  · obtain ⟨k, v⟩ := q
    obtain rfl : k = p.1 := own
    rw [revised_cons_self, if_pos null]
    simp
  · simp [own, revised_cons_of_ne own]

theorem filterMap_revised_put {p : String × Json} (value : ¬p.2.isNull) (fresh : p.1 ∉ changes.map Prod.fst)
    {es : List (String × Json)} (distinct : (es.map Prod.fst).Nodup) :
    (put p.1 p.2 es).filterMap (revised changes) =
      es.filterMap (revised (p :: changes)) ++ if p.1 ∈ es.map Prod.fst then [] else [p] := by
  induction es with
  | nil => simp [put, revised_of_absent fresh]
  | cons e es ih =>
    obtain ⟨l, w⟩ := e
    rw [List.map_cons, List.nodup_cons] at distinct
    by_cases own : l = p.1
    · subst own
      rw [put, if_pos rfl, List.filterMap_cons_some (revised_of_absent fresh),
        List.filterMap_cons_some ((revised_cons_self w).trans (if_neg value)),
        filterMap_revised_cons (p := p) distinct.1]
      simp
    · have mem : p.1 ∈ ((l, w) :: es).map Prod.fst ↔ p.1 ∈ es.map Prod.fst := by
        simp [Ne.symm own]
      rw [put, if_neg own, List.filterMap_cons, List.filterMap_cons, ih distinct.2,
        revised_cons_of_ne (p := p) (q := (l, w)) own]
      simp only [mem]
      cases revised changes (l, w) <;> rfl

/-- A change that is made in place is part of what comes out. -/
theorem patched_changeInPlace {p : String × Json} (fresh : p.1 ∉ changes.map Prod.fst) :
    patched changes (changeInPlace t p) = patched (p :: changes) t := by
  rw [patched, added_changeInPlace fresh, patched]
  by_cases null : p.2.isNull
  · have none : added (p :: changes) t = added changes t := List.filter_cons_of_neg (by simp [null])
    rw [changeInPlace, if_pos null, Table.entries_erase, filterMap_revised_filter null, none]
  · rw [changeInPlace, if_neg null, Table.entries_insert, filterMap_revised_put null fresh t.nodup,
      List.append_assoc]
    congr 1
    by_cases there : p.1 ∈ t.entries.map Prod.fst
    · have old : t.contains p.1 := Table.contains_iff.2 there
      rw [if_pos there, added, added, List.filter_cons_of_neg (by simp [old])]
      rfl
    · have new : t.contains p.1 = false := Table.contains_eq_false_iff.2 there
      rw [if_neg there, added, added, List.filter_cons_of_pos (by simp [null, new])]
      rfl

theorem entries_foldl_changeInPlace (distinct : (changes.map Prod.fst).Nodup) (t : Table Json) :
    (changes.foldl changeInPlace t).entries = patched changes t := by
  induction changes generalizing t with
  | nil =>
    rw [patched, added, List.filter_nil, List.append_nil]
    exact (List.filterMap_some).symm
  | cons p changes ih =>
    rw [List.map_cons, List.nodup_cons] at distinct
    rw [List.foldl_cons, ih distinct.2, patched_changeInPlace distinct.1]

/-! ### The order -/

theorem change_eq_of_few {p : String × Json} (few : p.2.isNull → (t.behind p.1).length ≤ 1) :
    change t p = changeInPlace t p := by
  unfold change changeInPlace
  split
  · next null => exact Table.swapErase_eq_erase_iff.2 (few null)
  · rfl

theorem foldl_change_of_steady (steady : Steady changes t) :
    changes.foldl change t = changes.foldl changeInPlace t := by
  induction changes generalizing t with
  | nil => rfl
  | cons p changes ih =>
    obtain ⟨few, rest⟩ := steady
    rw [List.foldl_cons, change_eq_of_few few]
    exact ih rest

theorem removed_cons (p : String × Json) (changes : List (String × Json)) (t : Table Json) :
    removed (p :: changes) t =
      if p.2.isNull && t.contains p.1 then p :: removed changes t else removed changes t := List.filter_cons

/-- What is taken out of a table depends on its keys alone. -/
theorem removed_congr (same : ∀ p ∈ changes, s.contains p.1 = t.contains p.1) :
    removed changes s = removed changes t := List.filter_congr fun p there => by rw [same p there]

theorem removed_of_get? {p : String × Json} (fresh : p.1 ∉ changes.map Prod.fst)
    (same : ∀ k, k ≠ p.1 → s.get? k = t.get? k) : removed changes s = removed changes t := by
  refine removed_congr fun q there => ?_
  rw [Table.contains, Table.contains, same]
  exact fun own => fresh (own ▸ List.mem_map_of_mem there)

theorem removed_changeInPlace {p : String × Json} (fresh : p.1 ∉ changes.map Prod.fst) :
    removed changes (changeInPlace t p) = removed changes t :=
  removed_of_get? fresh fun k other => by rw [get?_changeInPlace, if_neg other]

theorem few_of_absent {p : String × Json} (absent : t.contains p.1 = false) : (t.behind p.1).length ≤ 1 := by
  have none : (t.entries.dropWhile fun q => q.1 ≠ p.1) = [] := by
    rw [List.dropWhile_eq_nil_iff]
    intro q there
    refine decide_eq_true fun own => ?_
    exact Table.contains_eq_false_iff.1 absent (own ▸ List.mem_map_of_mem there)
  rw [Table.behind, none]
  exact Nat.zero_le _

/-- Where nothing that is there is taken out, every place is kept. -/
theorem steady_of_removed_nil (distinct : (changes.map Prod.fst).Nodup) (none : removed changes t = []) :
    Steady changes t := by
  induction changes generalizing t with
  | nil => trivial
  | cons p changes ih =>
    rw [List.map_cons, List.nodup_cons] at distinct
    rw [removed, List.filter_eq_nil_iff, List.forall_mem_cons] at none
    refine ⟨fun null => few_of_absent ?_, ih distinct.2 ?_⟩
    · have absent := none.1
      simpa [null] using absent
    · rw [removed_changeInPlace distinct.1, removed, List.filter_eq_nil_iff]
      exact none.2

/-- The order of a table shows after changes that take nothing out of it. -/
theorem eq_of_foldl_changeInPlace (distinct : (changes.map Prod.fst).Nodup)
    (none : ∀ t' ∈ [s, t], removed changes t' = []) (same : ∀ k, s.get? k = t.get? k)
    (after : changes.foldl changeInPlace s = changes.foldl changeInPlace t) : s = t := by
  have kept : ∀ t' ∈ [s, t], (t'.entries.filterMap (revised changes)).map Prod.fst = t'.keys := by
    intro t' among
    have each : ∀ p ∈ t'.entries, (revised changes p).map Prod.fst = some p.1 := by
      intro p there
      rw [revised]
      cases found : changes.lookup p.1 with
      | none => rfl
      | some v =>
        have stays : ¬v.isNull := by
          intro null
          have out := List.filter_eq_nil_iff.1 (none t' among) (p.1, v) (Table.mem_of_lookup found)
          have old : t'.contains p.1 := Table.contains_iff.2 (List.mem_map_of_mem there)
          simp [null, old] at out
        simp [stays]
    rw [List.map_filterMap, List.filterMap_congr each, Table.keys]
    exact congrFun List.filterMap_eq_map t'.entries
  have new : added changes s = added changes t :=
    List.filter_congr fun p _ => by rw [Table.contains, same, ← Table.contains]
  have entries := congrArg Table.entries after
  rw [entries_foldl_changeInPlace distinct, entries_foldl_changeInPlace distinct, patched, patched, new,
    List.append_cancel_right_eq] at entries
  have keys := congrArg (List.map Prod.fst) entries
  rw [kept s (by simp), kept t (by simp)] at keys
  exact Table.eq_of_keys keys same

/-- Where at most one key is taken out, the order is kept if and only if at most one is behind it. -/
theorem foldl_change_eq_iff (distinct : (changes.map Prod.fst).Nodup)
    (single : (removed changes t).length ≤ 1) :
    changes.foldl change t = changes.foldl changeInPlace t ↔ Steady changes t := by
  refine ⟨fun same => ?_, foldl_change_of_steady⟩
  induction changes generalizing t with
  | nil => trivial
  | cons p changes ih =>
    rw [List.map_cons, List.nodup_cons] at distinct
    rw [List.foldl_cons, List.foldl_cons] at same
    by_cases out : p.2.isNull && t.contains p.1
    · rw [removed_cons, if_pos out, List.length_cons] at single
      have none : removed changes t = [] := List.length_eq_zero_iff.1 (by omega)
      have found : ∀ k, (change t p).get? k = (changeInPlace t p).get? k := by
        intro k
        rw [get?_change, get?_changeInPlace]
      have none' : removed changes (changeInPlace t p) = [] := by rw [removed_changeInPlace distinct.1, none]
      have none'' : removed changes (change t p) = [] := by
        rw [removed_congr (t := changeInPlace t p) fun q _ => by rw [Table.contains, found, ← Table.contains], none']
      rw [foldl_change_of_steady (steady_of_removed_nil distinct.2 none'')] at same
      -- Nothing else is taken out, so the order that this step leaves is still seen in the end.
      have step := eq_of_foldl_changeInPlace distinct.2 (by simp [none', none'']) found same
      refine ⟨fun null => ?_, steady_of_removed_nil distinct.2 none'⟩
      rw [change, changeInPlace, if_pos null, if_pos null] at step
      exact Table.swapErase_eq_erase_iff.1 step
    · rw [removed_cons, if_neg out] at single
      have few : p.2.isNull → (t.behind p.1).length ≤ 1 := by
        intro null
        exact few_of_absent (by simpa [null] using out)
      rw [change_eq_of_few few] at same
      refine ⟨few, ih distinct.2 ?_ same⟩
      rwa [removed_changeInPlace distinct.1]

/-- How a table comes out of a patch. What is found is as the patch says, under every key. The order is as
it says if every key that is taken out has at most one behind it, and otherwise it is not, at least not
where only one key is taken out. -/
structure Merged (changes before after : Table Json) : Prop where
  found : ∀ k, after.get? k =
    match changes.get? k with
    | none => before.get? k
    | some v => if v.isNull then none else some v
  perm : after.entries.Perm (patched changes.entries before)
  ordered : Steady changes.entries before → after.entries = patched changes.entries before
  disordered : (removed changes.entries before).length ≤ 1 → ¬Steady changes.entries before →
    after.entries ≠ patched changes.entries before

theorem merged_mergeValues (changes t : Table Json) : Merged changes t (mergeValues changes t) := by
  have inPlace := entries_foldl_changeInPlace changes.nodup t
  have found := get?_foldl get?_change changes.nodup t
  rw [mergeValues_eq]
  refine ⟨found, ?_, fun steady => ?_, fun single unsteady same => ?_⟩
  · rw [← inPlace]
    apply Table.perm_of_get?
    intro k
    rw [found, get?_foldl get?_changeInPlace changes.nodup]
  · rw [foldl_change_of_steady steady, inPlace]
  · rw [← inPlace] at same
    exact unsteady ((foldl_change_eq_iff changes.nodup single).1 (Table.ext same))

/-! ### Patched elements and connections -/

/-- How an element comes out of a patch: what the patch does not name stays as it was. -/
structure ElementPatch.Took (now : Instant) (p : ElementPatch) (e e' : Element) : Prop where
  fields : e' = { e with
    label := p.label.getD e.label, kind := p.kind.getD e.kind, position := p.position.getD e.position
    size := p.size.getD e.size, properties := e'.properties, style := e'.style, updatedAt := now }
  properties : Merged p.properties e.properties e'.properties
  style : Merged p.style e.style e'.style

structure ConnectionPatch.Took (now : Instant) (p : ConnectionPatch) (c c' : Connection) : Prop where
  fields : c' = { c with
    source := p.source.getD c.source, target := p.target.getD c.target, label := p.label.getD c.label
    kind := p.kind.getD c.kind, points := p.points.getD c.points
    properties := c'.properties, style := c'.style, updatedAt := now }
  properties : Merged p.properties c.properties c'.properties
  style : Merged p.style c.style c'.style

/-- One value of a table is replaced by another; the keys and all other values stay. -/
structure Table.Replaced {α : Type} (before after : Table α) (k : String) (old new : α) : Prop where
  keys : after.keys = before.keys
  old : before.get? k = some old
  new : after.get? k = some new
  others : ∀ l, l ≠ k → after.get? l = before.get? l

theorem Table.replaced_modify {α : Type} {t : Table α} {k : String} {v : α} (found : t.get? k = some v)
    (f : α → α) : Table.Replaced t (t.modify k f) k v (f v) where
  keys := Table.keys_modify t k f
  old := found
  new := by rw [Table.get?_modify, if_pos rfl, found, Option.map_some]
  others l other := by rw [Table.get?_modify, if_neg other]

namespace Editor

/-- A patch that is accepted changes one element or connection, and of that only what it names. -/
theorem update_took (now : Instant) (ed : Editor) (id : String) :
    (∀ p : ElementPatch, (ed.updateElement now id p).answer = true →
      (ed.updateElement now id p).editor.connections = ed.connections ∧
      ∃ e e', Table.Replaced ed.elements (ed.updateElement now id p).editor.elements id e e' ∧
        p.Took now e e') ∧
    (∀ p : ConnectionPatch, (ed.updateConnection now id p).answer = true →
      (ed.updateConnection now id p).editor.elements = ed.elements ∧
      ∃ c c', Table.Replaced ed.connections (ed.updateConnection now id p).editor.connections id c c' ∧
        p.Took now c c') := by
  constructor
  · intro p accepted
    cases found : ed.elements.get? id with
    | none => simp [updateElement, found, refuse] at accepted
    | some e =>
      have step : ed.updateElement now id p = ed.carryOut now
          (ed.diagram.toGraph.modifyElement id (p.apply now)) true [.elementUpdated (p.apply now e)] := by
        rw [updateElement, found]
      rw [step]
      exact ⟨rfl, e, p.apply now e, Table.replaced_modify found _,
        ⟨rfl, merged_mergeValues .., merged_mergeValues ..⟩⟩
  · intro p accepted
    cases found : ed.connections.get? id with
    | none => simp [updateConnection, found, refuse] at accepted
    | some c =>
      simp only [updateConnection, found] at accepted ⊢
      split at accepted
      · next ends =>
        rw [if_pos ends]
        exact ⟨rfl, c, p.apply now c, Table.replaced_modify found _,
          ⟨rfl, merged_mergeValues .., merged_mergeValues ..⟩⟩
      · cases accepted

/-- An element and a connection with three styles each. -/
def styled : Editor :=
  let style : Table Json := .ofList [("fill", .str "red"), ("stroke", .str "blue"), ("color", .str "black")]
  ofDiagram (.ofGraph .flowchart ⟨⟨[("a", { Element.node .epoch "a" "A" with style })], by decide⟩,
    ⟨[("c", { Connection.create .epoch "c" "a" "a" "arrow" with style })], by decide⟩⟩ (.create .epoch))

/-- One style is taken out, one is set to another value, and one is new. -/
def restyling : Table Json := .ofList [("stroke", .null), ("fill", .str "green"), ("width", .str "2")]

theorem update_took_styled :
    let p : ElementPatch := { label := some "B", style := restyling }
    let q : ConnectionPatch := { kind := some "dotted", style := restyling }
    ((styled.updateElement .epoch "a" p).answer = true ∧
      (styled.updateElement .epoch "a" p).editor.connections = styled.connections ∧
      ∃ e e', Table.Replaced styled.elements (styled.updateElement .epoch "a" p).editor.elements "a" e e' ∧
        p.Took .epoch e e') ∧
    (styled.updateConnection .epoch "c" q).answer = true ∧
      (styled.updateConnection .epoch "c" q).editor.elements = styled.elements ∧
      ∃ c c', Table.Replaced styled.connections (styled.updateConnection .epoch "c" q).editor.connections "c" c c' ∧
        q.Took .epoch c c' :=
  ⟨⟨rfl, (update_took .epoch styled "a").1 _ rfl⟩, rfl, (update_took .epoch styled "c").2 _ rfl⟩

/-- The first of three styles is taken out, and the other two change places. -/
theorem styles_updateElement_first :
    (styled.elements.get? "a").map (·.style.keys) = some ["fill", "stroke", "color"] ∧
    ((styled.updateElement .epoch "a" { style := .ofList [("fill", .null)] }).editor.elements.get? "a").map
      (·.style.keys) = some ["color", "stroke"] := by
  decide

end Editor

end DiagramText
