import DiagramText.Proofs.Outline.Drawing

/-! Elements planted one after the other. A reader lists an element when it is new, in a group that is
there; so no element is listed twice, and a rank shows that none is listed below itself: what is read
is nested like a forest. An element that is listed nowhere and that the outline skips may as well not
be there. -/
namespace DiagramText.Outline

/-- What an element lists is there, comes after it, and is listed once. -/
structure Planted (es : List (String × Element)) : Prop where
  keyed : ∀ p ∈ es, p.1 = p.2.id
  once : ∀ p ∈ es, (p.2.listed Element.childrenKey).Nodup
  apart : ∀ p ∈ es, ∀ q ∈ es, ∀ id ∈ p.2.listed Element.childrenKey,
    id ∈ q.2.listed Element.childrenKey → p.1 = q.1
  there : ∀ p ∈ es, ∀ id ∈ p.2.listed Element.childrenKey, id ∈ es.map Prod.fst
  ranked : ∃ rank : String → Nat, ∀ p ∈ es, ∀ id ∈ p.2.listed Element.childrenKey, rank p.1 < rank id

namespace Planted

variable {es fs : List (String × Element)} {groups : List String} {id : String} {e : Element}

theorem nil : Planted [] :=
  ⟨by simp, by simp, by simp, by simp, fun _ => 0, by simp⟩

/-- Ids and lists are all that matters. -/
theorem congr (planted : Planted es)
    (same : (fs.map fun p => (p.1, p.2.id, p.2.listed Element.childrenKey)) =
      es.map fun p => (p.1, p.2.id, p.2.listed Element.childrenKey)) : Planted fs := by
  have keys : fs.map Prod.fst = es.map Prod.fst := by
    have firsts := congrArg (List.map Prod.fst) same
    rwa [List.map_map, List.map_map] at firsts
  have back : ∀ p ∈ fs, ∃ q ∈ es, q.1 = p.1 ∧ q.2.id = p.2.id ∧
      q.2.listed Element.childrenKey = p.2.listed Element.childrenKey := by
    intro p h
    obtain ⟨q, there, alike⟩ := List.mem_map.1 (same ▸ List.mem_map_of_mem h)
    simp only [Prod.mk.injEq] at alike
    exact ⟨q, there, alike⟩
  obtain ⟨rank, ranked⟩ := planted.ranked
  refine ⟨fun p h => ?_, fun p h => ?_, fun p hp q hq => ?_, fun p h => ?_, rank, fun p h => ?_⟩
  · obtain ⟨x, hx, key, own, -⟩ := back p h
    rw [← key, ← own, planted.keyed x hx]
  · obtain ⟨x, hx, -, -, lists⟩ := back p h
    exact lists ▸ planted.once x hx
  · obtain ⟨x, hx, key, -, lists⟩ := back p hp
    obtain ⟨y, hy, key', -, lists'⟩ := back q hq
    rw [← key, ← key', ← lists, ← lists']
    exact planted.apart x hx y hy
  · obtain ⟨x, hx, -, -, lists⟩ := back p h
    rw [← lists, keys]
    exact planted.there x hx
  · obtain ⟨x, hx, key, -, lists⟩ := back p h
    rw [← lists, ← key]
    exact ranked x hx

/-- A change that keeps the id and the list of an element. -/
theorem modify {table : Table Element} (planted : Planted table.entries) (key : String)
    {f : Element → Element} (ids : ∀ e, (f e).id = e.id)
    (lists : ∀ e ∈ table.values, (f e).listed Element.childrenKey = e.listed Element.childrenKey) :
    Planted (table.modify key f).entries := by
  apply planted.congr
  rw [Table.entries_modify, List.map_map]
  apply List.map_congr_left
  intro p h
  have same := lists p.2 (Table.mem_values_iff.2 ⟨p, h, rfl⟩)
  by_cases hit : p.1 = key <;> simp [hit, ids, same]

/-- What the innermost open group lists when it takes in one id. -/
theorem listed_adopt {p : String × Element} (h : p ∈ adopt groups [id] es) :
    ∃ q ∈ es, q.1 = p.1 ∧ q.2.id = p.2.id ∧ p.2.listed Element.childrenKey =
      q.2.listed Element.childrenKey ++ if groups.head? = some q.1 then [id] else [] := by
  obtain ⟨q, there, key, same⟩ := exists_of_mem_adopt h
  refine ⟨q, there, key, ?_⟩
  rw [same]
  split
  · exact ⟨(Graph.append_id ..).symm, Element.listed_append ..⟩
  · exact ⟨rfl, (List.append_nil _).symm⟩

/-- What is listed then was listed before, or is the new id in the innermost open group. -/
theorem mem_listed_adopt {p : String × Element} (h : p ∈ adopt groups [id] es) {x : String}
    (listed : x ∈ p.2.listed Element.childrenKey) : ∃ q ∈ es, q.1 = p.1 ∧
      (x ∈ q.2.listed Element.childrenKey ∨ (x = id ∧ groups.head? = some q.1)) := by
  obtain ⟨q, there, key, -, lists⟩ := listed_adopt h
  rw [lists, List.mem_append] at listed
  refine ⟨q, there, key, listed.imp_right fun new => ?_⟩
  split at new
  · next top => exact ⟨List.mem_singleton.1 new, top⟩
  · cases new

/-- A new element that lists nothing goes to the end and into the innermost open group. -/
theorem add (planted : Planted es) (fresh : id ∉ es.map Prod.fst) (own : e.id = id)
    (empty : e.listed Element.childrenKey = []) : Planted (adopt groups [id] es ++ [(id, e)]) := by
  have notListed : ∀ q ∈ es, id ∉ q.2.listed Element.childrenKey :=
    fun q h listed => fresh (planted.there q h id listed)
  have notKey : ∀ q ∈ es, q.1 ≠ id := fun q h same => fresh (same ▸ List.mem_map_of_mem h)
  have before : ∀ p ∈ adopt groups [id] es ++ [(id, e)], ∀ x ∈ p.2.listed Element.childrenKey,
      ∃ q ∈ es, q.1 = p.1 ∧
        (x ∈ q.2.listed Element.childrenKey ∨ (x = id ∧ groups.head? = some q.1)) := by
    intro p h x listed
    rw [List.mem_append, List.mem_singleton] at h
    rcases h with old | rfl
    · exact mem_listed_adopt old listed
    · rw [empty] at listed
      cases listed
  have keys : (adopt groups [id] es ++ [(id, e)]).map Prod.fst = es.map Prod.fst ++ [id] := by simp
  obtain ⟨rank, ranked⟩ := planted.ranked
  let top := (groups.head?.map rank).getD 0
  refine ⟨fun p h => ?_, fun p h => ?_, fun p hp q hq x xp xq => ?_, fun p h x xp => ?_,
    fun key => if key = id then top + 1 else rank key, fun p h x xp => ?_⟩
  · rw [List.mem_append, List.mem_singleton] at h
    rcases h with old | rfl
    · obtain ⟨q, hq, key, same, -⟩ := listed_adopt old
      rw [← key, ← same, planted.keyed q hq]
    · exact own.symm
  · rw [List.mem_append, List.mem_singleton] at h
    rcases h with old | rfl
    · obtain ⟨q, hq, -, -, lists⟩ := listed_adopt old
      have apart : ∀ x ∈ q.2.listed Element.childrenKey,
          ∀ y ∈ if groups.head? = some q.1 then [id] else [], x ≠ y := by
        rintro x old _ new rfl
        split at new
        · exact notListed q hq (List.mem_singleton.1 new ▸ old)
        · cases new
      rw [lists, List.nodup_append]
      exact ⟨planted.once q hq, by split <;> simp, apart⟩
    · rw [empty]
      exact List.nodup_nil
  · obtain ⟨p', hp', key, how⟩ := before p hp x xp
    obtain ⟨q', hq', key', how'⟩ := before q hq x xq
    rw [← key, ← key']
    rcases how with old | ⟨rfl, atTop⟩
    · rcases how' with old' | ⟨rfl, -⟩
      · exact planted.apart p' hp' q' hq' x old old'
      · exact absurd old (notListed p' hp')
    · rcases how' with old' | ⟨-, atTop'⟩
      · exact absurd old' (notListed q' hq')
      · exact Option.some.inj (atTop.symm.trans atTop')
  · obtain ⟨q, hq, -, how⟩ := before p h x xp
    rw [keys, List.mem_append, List.mem_singleton]
    exact how.imp (planted.there q hq x) And.left
  · obtain ⟨q, hq, key, how⟩ := before p h x xp
    rw [← key]
    simp only [if_neg (notKey q hq)]
    rcases how with old | ⟨rfl, atTop⟩
    · have other : x ≠ id := fun same => notListed q hq (same ▸ old)
      rw [if_neg other]
      exact ranked q hq x old
    · rw [if_pos rfl]
      simp [top, atTop]

/-- Elements that are planted are nested like a forest. -/
theorem nested {table : Table Element} (planted : Planted table.entries) : Nested table where
  keyed := planted.keyed
  once := by
    unfold listings
    rw [List.nodup_flatMap]
    refine ⟨fun e h => ?_, ?_⟩
    · obtain ⟨p, hp, rfl⟩ := Table.mem_values_iff.1 (List.mem_filter.1 h).1
      exact (planted.once p hp).filter _
    · have distinct : (table.values.filter fun e => e.kind = .container).Nodup := by
        apply List.Nodup.filter
        apply List.Nodup.of_map (·.id)
        have ids : table.values.map (·.id) = table.keys := by
          rw [Table.values, Table.keys, List.map_map]
          exact List.map_congr_left fun p h => (planted.keyed p h).symm
        rw [ids]
        exact table.nodup
      apply distinct.pairwise_of_forall_ne
      intro a ha b hb other id inA inB
      obtain ⟨p, hp, rfl⟩ := Table.mem_values_iff.1 (List.mem_filter.1 ha).1
      obtain ⟨q, hq, rfl⟩ := Table.mem_values_iff.1 (List.mem_filter.1 hb).1
      have same := planted.apart p hp q hq id (List.mem_filter.1 inA).1 (List.mem_filter.1 inB).1
      have found := Table.get?_eq_some_iff.2 hp
      rw [same, Table.get?_eq_some_iff.2 hq] at found
      exact other (Option.some.inj found).symm
  acyclic := by
    obtain ⟨rank, ranked⟩ := planted.ranked
    have descends {a b : String} (way : Relation.TransGen (Lists table) a b) : rank a < rank b := by
      have step {a b : String} (lists : Lists table a b) : rank a < rank b := by
        obtain ⟨e, found, -, listed⟩ := lists
        exact ranked _ (Table.get?_eq_some_iff.1 found) b (List.mem_filter.1 listed).1
      induction way with
      | single lists => exact step lists
      | tail _ lists ih => exact Nat.lt_trans ih (step lists)
    exact fun id way => Nat.lt_irrefl _ (descends way)

/-- Where everything that is listed is there, the children are all that is listed. -/
theorem childKeys_eq {table : Table Element} (planted : Planted table.entries)
    (there : e ∈ table.values) : childKeys table e = e.listed Element.childrenKey := by
  obtain ⟨p, hp, rfl⟩ := Table.mem_values_iff.1 there
  exact List.filter_eq_self.2 fun id h => Table.contains_iff.2 (planted.there p hp id h)

/-- An element that is listed nowhere can be taken out. -/
theorem erase {table : Table Element} (planted : Planted table.entries)
    (unlisted : ∀ e ∈ table.values, id ∉ e.listed Element.childrenKey) :
    Planted (table.erase id).entries := by
  have among : ∀ p ∈ (table.erase id).entries, p ∈ table.entries :=
    fun p h => List.mem_of_mem_filter h
  obtain ⟨rank, ranked⟩ := planted.ranked
  refine ⟨fun p h => planted.keyed p (among p h), fun p h => planted.once p (among p h),
    fun p hp q hq => planted.apart p (among p hp) q (among q hq), fun p h x listed => ?_,
    rank, fun p h => ranked p (among p h)⟩
  have other : x ≠ id := fun same =>
    unlisted p.2 (Table.mem_values_iff.2 ⟨p, among p h, rfl⟩) (same ▸ listed)
  obtain ⟨q, there, rfl⟩ := List.mem_map.1 (planted.there p (among p h) x listed)
  refine List.mem_map.2 ⟨q, ?_, rfl⟩
  rw [Table.erase, Table.entries_filter, List.mem_filter]
  exact ⟨there, by simpa using other⟩

end Planted

/-! ### What the outline skips -/

section Skipped

variable {table : Table Element} {key : String} {visited keys : List String} {f : Forest}

/-- The search that skips an element is the search where it is not. -/
theorem Explores.erase (keyed : ∀ p ∈ table.entries, p.1 = p.2.id)
    (unlisted : ∀ e ∈ table.values, key ∉ e.listed Element.childrenKey)
    (explored : Explores table (fun e => e.id = key) visited keys f) :
    Explores (table.erase key) (fun _ => false) visited keys f := by
  have still {k : String} {e : Element} (found : table.get? k = some e) (kept : e.id ≠ key) :
      (table.erase key).get? k = some e := by
    rw [Table.get?_erase, if_neg (id_of_get? keyed found ▸ kept), found]
  have gone {k : String} (absent : table.get? k = none) : (table.erase key).get? k = none := by
    rw [Table.get?_erase, absent, ite_self]
  induction explored with
  | done => exact .done
  | absent absent _ ih => exact .absent (gone absent) ih
  | @passed _ k _ e _ found seen _ ih =>
    by_cases skipped : e.id = key
    · refine .absent ?_ ih
      rw [Table.get?_erase, if_pos (id_of_get? keyed found ▸ skipped)]
    · exact .passed (still found skipped) (.inr (seen.resolve_left (by simpa using skipped))) ih
  | leaf found kept fresh other _ ih =>
    exact .leaf (still found (by simpa using kept)) rfl fresh other ih
  | @group _ _ _ e _ _ found kept fresh box _ _ inner outer =>
    have children : childKeys (table.erase key) e = childKeys table e := by
      apply List.filter_congr
      intro k listed
      have other : k ≠ key := fun same =>
        unlisted e (Table.mem_values_of_get? found) (same ▸ listed)
      rw [Table.contains, Table.contains, Table.get?_erase, if_neg other]
    exact .group (still found (by simpa using kept)) rfl fresh box (children ▸ inner) outer

/-- An element that is skipped, that is no container and that no container lists might not be there. -/
theorem ofElements_erase (keyed : ∀ p ∈ table.entries, p.1 = p.2.id)
    (plain : ∀ e ∈ table.values, e.id = key → e.kind ≠ .container)
    (unlisted : ∀ e ∈ table.values, key ∉ e.listed Element.childrenKey) :
    ofElements table (fun e => e.id = key) = ofElements (table.erase key) fun _ => false := by
  have keyed' : ∀ p ∈ (table.erase key).entries, p.1 = p.2.id :=
    fun p h => keyed p (List.mem_of_mem_filter h)
  have nested (id : String) (other : id ≠ key) :
      id ∈ nestedIds (table.erase key) ↔ id ∈ nestedIds table := by
    rw [mem_nestedIds_iff keyed, mem_nestedIds_iff keyed', mem_listings_iff, mem_listings_iff]
    have children (e : Element) : id ∈ childKeys (table.erase key) e ↔ id ∈ childKeys table e := by
      simp only [childKeys, List.mem_filter, Table.contains, Table.get?_erase, if_neg other]
    simp only [children]
    constructor
    · rintro ⟨e, there, box, listed⟩
      obtain ⟨p, hp, rfl⟩ := Table.mem_values_iff.1 there
      exact ⟨p.2, Table.mem_values_iff.2 ⟨p, List.mem_of_mem_filter hp, rfl⟩, box, listed⟩
    · rintro ⟨e, there, box, listed⟩
      obtain ⟨p, hp, rfl⟩ := Table.mem_values_iff.1 there
      have kept : p.1 ≠ key := fun same => plain p.2 there ((keyed p hp).symm.trans same) box
      refine ⟨p.2, Table.mem_values_iff.2 ⟨p, ?_, rfl⟩, box, listed⟩
      rw [Table.erase, Table.entries_filter, List.mem_filter]
      exact ⟨hp, by simpa using kept⟩
  have roots : rootKeys (table.erase key) (fun _ => false) = rootKeys table fun e => e.id = key := by
    unfold rootKeys
    rw [Table.erase, Table.entries_filter, List.filter_filter]
    congr 1
    apply List.filter_congr
    intro p h
    by_cases own : p.2.id = key
    · simp [keyed p h, own]
    · have same := nested p.2.id own
      rw [Table.erase] at same
      simp [keyed p h, own, same]
  obtain ⟨f, explored⟩ := exists_explores table (fun e => e.id = key) []
    (rootKeys table fun e => e.id = key)
  have found := explored.erase keyed unlisted
  rw [← roots] at found
  rw [ofElements_of_explores explored, ofElements_of_explores found]

end Skipped

end DiagramText.Outline
