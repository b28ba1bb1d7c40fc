import DiagramText.Proofs.Outline.Forest
import Mathlib.Data.Fintype.Card
import Mathlib.Data.List.Nodup
import Mathlib.Data.List.Pairwise
import Mathlib.Data.Set.Finite.Basic

/-! Tables that are nested like a forest: containers list no id twice and none lists itself, however
far down. Their outline is a forest that shows every element once, in the place where it is listed;
and a table that holds a forest in order has that forest for its outline. -/
namespace DiagramText.Outline

/-- The container under one key lists the other key. -/
def Lists (table : Table Element) (box key : String) : Prop :=
  ∃ e, table.get? box = some e ∧ e.kind = .container ∧ key ∈ childKeys table e

/-- All that the containers among some elements list, one container after the other. -/
def listings (table : Table Element) (es : List Element) : List String :=
  (es.filter fun e => e.kind = .container).flatMap (childKeys table)

structure Nested (table : Table Element) : Prop where
  keyed : ∀ p ∈ table.entries, p.1 = p.2.id
  once : (listings table table.values).Nodup
  acyclic : ∀ id, ¬ Relation.TransGen (Lists table) id id

variable {table : Table Element} {skip : Element → Bool} {visited keys : List String} {f : Forest}

theorem listings_box {e : Element} (box : e.kind = .container) (es : List Element) :
    listings table (e :: es) = childKeys table e ++ listings table es := by simp [listings, box]

theorem listings_other {e : Element} (other : e.kind ≠ .container) (es : List Element) :
    listings table (e :: es) = listings table es := by simp [listings, other]

theorem listings_append (es fs : List Element) :
    listings table (es ++ fs) = listings table es ++ listings table fs := by simp [listings]

theorem mem_listings_iff {es : List Element} {id : String} :
    id ∈ listings table es ↔ ∃ e ∈ es, e.kind = .container ∧ id ∈ childKeys table e := by
  simp [listings, and_assoc]

/-- What is listed once over all is listed once over any selection. -/
theorem nodup_listings {es fs : List Element} (once : (listings table es).Nodup) (distinct : fs.Nodup)
    (among : fs ⊆ es) : (listings table fs).Nodup := by
  unfold listings at once ⊢
  rw [List.nodup_flatMap] at once ⊢
  obtain ⟨each, apart⟩ := once
  have : Std.Symm (Function.onFun List.Disjoint (childKeys table)) :=
    ⟨fun _ _ h => List.Disjoint.symm h⟩
  have still {e : Element} (h : e ∈ fs.filter fun e => e.kind = .container) :
      e ∈ es.filter fun e => e.kind = .container := by
    rw [List.mem_filter] at h ⊢
    exact ⟨among h.1, h.2⟩
  refine ⟨fun e h => each e (still h), ?_⟩
  apply (distinct.filter _).pairwise_of_forall_ne
  intro a ha b hb other
  exact apart.forall (still ha) (still hb) other

theorem contains_of_mem_childKeys {e : Element} {key : String} (listed : key ∈ childKeys table e) :
    table.contains key := (List.mem_filter.1 listed).2

/-! ### Roots -/

/-- The keys that a walk starts from. -/
def rootKeys (table : Table Element) (skip : Element → Bool) : List String :=
  (table.entries.filter fun (_, e) => !skip e && !(nestedIds table).contains e.id).map Prod.fst

theorem ofElements_eq_walk (table : Table Element) (skip : Element → Bool) :
    ofElements table skip = walk table skip [] ((rootKeys table skip).map (.enter · 1)) := by
  simp [ofElements, rootKeys, Function.comp_def]

theorem ofElements_of_explores (explored : Explores table skip [] (rootKeys table skip) f) :
    ofElements table skip = f.items 1 := by
  rw [ofElements_eq_walk, ← List.append_nil (List.map _ _), walk_of_explores explored, walk,
    List.append_nil]

/-- What holds of the line of every element, and of the lines that close, holds of an outline. -/
theorem forall_ofElements {P : Item → Prop} (leaf : ∀ e ∈ table.values, ∀ depth, P (.leaf e depth))
    (opens : ∀ e ∈ table.values, ∀ depth, P (.opens e depth)) (closes : ∀ depth, P (.closes depth))
    (skip : Element → Bool) : ∀ item ∈ ofElements table skip, P item := by
  obtain ⟨f, explored⟩ := exists_explores table skip [] (rootKeys table skip)
  have known : ∀ e ∈ f.preorder, e ∈ table.values := by
    intro e there
    obtain ⟨key, found⟩ := mem_of_explores explored e there
    exact Table.mem_values_of_get? found
  rw [ofElements_of_explores explored]
  exact f.forall_items (fun e there => leaf e (known e there)) (fun e there => opens e (known e there)) closes 1

theorem id_of_get? (keyed : ∀ p ∈ table.entries, p.1 = p.2.id) {key : String} {e : Element}
    (found : table.get? key = some e) : e.id = key := (keyed _ (Table.get?_eq_some_iff.1 found)).symm

theorem get?_id_of_mem (keyed : ∀ p ∈ table.entries, p.1 = p.2.id) {e : Element}
    (there : e ∈ table.values) : table.get? e.id = some e := by
  obtain ⟨⟨key, _⟩, entry, rfl⟩ := Table.mem_values_iff.1 there
  rw [← keyed _ entry]
  exact Table.get?_eq_some_iff.2 entry

theorem mem_nestedIds_iff (keyed : ∀ p ∈ table.entries, p.1 = p.2.id) {id : String} :
    id ∈ nestedIds table ↔ id ∈ listings table table.values := by
  simp only [mem_listings_iff, nestedIds, List.mem_flatMap, List.mem_filter, List.mem_filterMap,
    decide_eq_true_eq, and_assoc]
  constructor
  · rintro ⟨e, there, box, key, listed, found⟩
    obtain ⟨x, hx, rfl⟩ := Option.map_eq_some_iff.1 found
    rw [id_of_get? keyed hx]
    exact ⟨e, there, box, listed⟩
  · rintro ⟨e, there, box, listed⟩
    refine ⟨e, there, box, id, listed, ?_⟩
    obtain ⟨x, hx⟩ := Option.isSome_iff_exists.1 (contains_of_mem_childKeys listed)
    exact Option.map_eq_some_iff.2 ⟨x, hx, id_of_get? keyed hx⟩

/-! ### Nothing is lost -/

/-- Where keys can be ranked so that what a container lists ranks above it, nothing lies below itself. -/
theorem acyclic_of_ranked (keyed : ∀ p ∈ table.entries, p.1 = p.2.id) (rank : String → Nat)
    (ranked : ∀ e ∈ table.values, e.kind = .container → ∀ key ∈ childKeys table e, rank e.id < rank key)
    (id : String) : ¬ Relation.TransGen (Lists table) id id := by
  have above {box key : String} (listed : Lists table box key) : rank box < rank key := by
    obtain ⟨e, found, isBox, child⟩ := listed
    rw [← id_of_get? keyed found]
    exact ranked e (Table.mem_values_of_get? found) isBox key child
  have far {box key : String} (path : Relation.TransGen (Lists table) box key) : rank box < rank key := by
    induction path with
    | single listed => exact above listed
    | tail _ listed ih => exact Nat.lt_trans ih (above listed)
  exact fun around => Nat.lt_irrefl _ (far around)

theorem wellFounded_lists (acyclic : ∀ id, ¬ Relation.TransGen (Lists table) id id) :
    WellFounded fun a b : { key // key ∈ table.keys } => Relation.TransGen (Lists table) a b := by
  have : Finite { key // key ∈ table.keys } := List.finite_toSet table.keys
  have : IsTrans { key // key ∈ table.keys } fun a b => Relation.TransGen (Lists table) a b :=
    ⟨fun _ _ _ => Relation.TransGen.trans⟩
  have : Std.Irrefl fun a b : { key // key ∈ table.keys } => Relation.TransGen (Lists table) a b :=
    ⟨fun a => acyclic a⟩
  exact Finite.wellFounded_of_trans_of_irrefl _

/-- Without a cycle everything that is not skipped is found from the roots, if no container is
skipped. -/
theorem mem_ids_of_explores (keyed : ∀ p ∈ table.entries, p.1 = p.2.id)
    (acyclic : ∀ id, ¬ Relation.TransGen (Lists table) id id)
    (boxes : ∀ e ∈ table.values, e.kind = .container → skip e = false)
    (explored : Explores table skip [] (rootKeys table skip) f) {e : Element}
    (there : e ∈ table.values) (kept : skip e = false) : e.id ∈ f.ids := by
  have all (a : { key // key ∈ table.keys }) :
      ∀ e, table.get? a.1 = some e → skip e = false → e.id ∈ f.ids := by
    induction a using (wellFounded_lists acyclic).induction with
    | _ a ih =>
      intro e found kept
      have own := id_of_get? keyed found
      by_cases nested : e.id ∈ nestedIds table
      · obtain ⟨b, inTable, isBox, listed⟩ := mem_listings_iff.1 ((mem_nestedIds_iff keyed).1 nested)
        have boxFound := get?_id_of_mem keyed inTable
        have boxThere : b.id ∈ table.keys := Table.contains_iff.1 (by simp [Table.contains, boxFound])
        have above := ih ⟨b.id, boxThere⟩ (.single (own ▸ ⟨b, boxFound, isBox, listed⟩)) b boxFound
          (boxes b inTable isBox)
        obtain ⟨b', found', same⟩ := List.mem_map.1 above
        obtain ⟨key', there'⟩ := mem_of_explores explored b' found'
        have sameBox : table.get? b'.id = some b' := id_of_get? keyed there' ▸ there'
        rw [same, boxFound] at sameBox
        obtain rfl := Option.some.inj sameBox
        simpa using closed_of_explores explored b found' isBox e.id listed e (own ▸ found) kept
      · have root : a.1 ∈ rootKeys table skip :=
          List.mem_map.2 ⟨(a.1, e), by simpa [kept, nested] using Table.get?_eq_some_iff.1 found, rfl⟩
        simpa using reaches_of_explores explored a.1 root e found kept
  have found := get?_id_of_mem keyed there
  exact all ⟨e.id, Table.contains_iff.1 (by simp [Table.contains, found])⟩ e found kept

/-! ### Forests that show a table -/

namespace Forest

/-- Every element is the one in the table, and a group has inside just what it lists. -/
def Shows (table : Table Element) : Forest → Prop
  | nil => True
  | leaf e rest => table.get? e.id = some e ∧ e.kind ≠ .container ∧ rest.Shows table
  | group e inside rest => table.get? e.id = some e ∧ e.kind = .container ∧
      childKeys table e = inside.tops ∧ inside.Shows table ∧ rest.Shows table

instance Shows.instDecidable (table : Table Element) : (f : Forest) → Decidable (f.Shows table)
  | nil => inferInstanceAs (Decidable True)
  | leaf _ rest =>
    have := instDecidable table rest
    inferInstanceAs (Decidable (_ ∧ _ ∧ _))
  | group _ inside rest =>
    have := instDecidable table inside
    have := instDecidable table rest
    inferInstanceAs (Decidable (_ ∧ _ ∧ _ ∧ _ ∧ _))

/-- The ids of the elements that stand inside some group. -/
def inner : Forest → List String
  | nil => []
  | leaf _ rest => rest.inner
  | group _ inside rest => inside.ids ++ rest.inner

theorem mem_ids_iff {f : Forest} {id : String} : id ∈ f.ids ↔ id ∈ f.tops ∨ id ∈ f.inner := by
  induction f with
  | nil => simp [tops, inner]
  | leaf e rest ih => simp [tops, inner, ih, or_assoc]
  | group e inside rest _ ih =>
    simp only [ids_group, tops, inner, List.mem_cons, List.mem_append, ih]
    constructor
    · rintro (h | h | h | h) <;> simp [h]
    · rintro ((h | h) | h | h) <;> simp [h]

theorem disjoint_tops_inner {f : Forest} (distinct : f.ids.Nodup) :
    ∀ id ∈ f.tops, id ∉ f.inner := by
  induction f with
  | nil => simp [tops]
  | leaf e rest ih =>
    rw [ids_leaf, List.nodup_cons] at distinct
    simp only [tops, inner, List.mem_cons]
    rintro id (rfl | top) within
    · exact distinct.1 (mem_ids_iff.2 (.inr within))
    · exact ih distinct.2 id top within
  | group e inside rest _ ih =>
    rw [ids_group, List.nodup_cons, List.nodup_append] at distinct
    obtain ⟨fresh, _, after, apart⟩ := distinct
    rw [List.mem_append, not_or] at fresh
    simp only [tops, inner, List.mem_cons, List.mem_append]
    rintro id (rfl | top) (within | within)
    · exact fresh.1 within
    · exact fresh.2 (mem_ids_iff.2 (.inr within))
    · exact apart id within id (tops_subset_ids rest top) rfl
    · exact ih after id top within

/-- What shows a table can be found in it. -/
theorem Shows.get? {f : Forest} (shown : f.Shows table) :
    ∀ e ∈ f.preorder, table.get? e.id = some e := by
  induction f with
  | nil => simp [preorder]
  | leaf e rest ih =>
    simp only [preorder, List.mem_cons]
    rintro x (rfl | h)
    · exact shown.1
    · exact ih shown.2.2 x h
  | group e inside rest inner outer =>
    obtain ⟨found, _, _, within, after⟩ := shown
    simp only [preorder, List.mem_cons, List.mem_append]
    rintro x (rfl | h | h)
    · exact found
    · exact inner within x h
    · exact outer after x h

/-- A forest with all the ids of its table has all the elements. -/
theorem Shows.mem_preorder {f : Forest} (shown : f.Shows table) (all : f.ids.Perm table.keys)
    (keyed : ∀ p ∈ table.entries, p.1 = p.2.id) {e : Element} (there : e ∈ table.values) :
    e ∈ f.preorder := by
  have known := get?_id_of_mem keyed there
  have listed : e.id ∈ f.ids :=
    all.mem_iff.2 (Table.contains_iff.1 (by rw [Table.contains, known, Option.isSome_some]))
  obtain ⟨x, inside, same⟩ := List.mem_map.1 listed
  have found := shown.get? x inside
  rw [same, known] at found
  exact Option.some.inj found ▸ inside

/-- The ids below the top are those that some container of the forest lists. -/
theorem Shows.mem_inner_iff {f : Forest} (shown : f.Shows table) {id : String} :
    id ∈ f.inner ↔ id ∈ listings table f.preorder := by
  rw [mem_listings_iff]
  induction f with
  | nil => simp [inner, preorder]
  | leaf e rest ih => simp [inner, preorder, ih shown.2.2, shown.2.1]
  | group e inside rest within after =>
    obtain ⟨_, box, lists, inShows, restShows⟩ := shown
    simp only [inner, preorder, List.mem_append, List.mem_cons, mem_ids_iff, within inShows,
      after restShows, or_and_right, exists_or, exists_eq_left, box, lists, true_and, or_assoc]

/-- A forest that shows a table is what a search over its tops finds. -/
theorem Shows.explores {f : Forest} (shown : f.Shows table) (distinct : f.ids.Nodup)
    (unseen : ∀ id ∈ f.ids, id ∉ visited) :
    Explores table (fun _ => false) visited f.tops f := by
  induction f generalizing visited with
  | nil => exact .done
  | leaf e rest ih =>
    rw [ids_leaf, List.nodup_cons] at distinct
    rw [ids_leaf, List.forall_mem_cons] at unseen
    refine .leaf shown.1 rfl unseen.1 shown.2.1 (ih shown.2.2 distinct.2 fun id h => ?_)
    rw [List.mem_cons, not_or]
    refine ⟨?_, unseen.2 id h⟩
    rintro rfl
    exact distinct.1 h
  | group e inside rest within after =>
    obtain ⟨found, box, lists, inShows, restShows⟩ := shown
    rw [ids_group, List.nodup_cons, List.nodup_append] at distinct
    rw [ids_group, List.forall_mem_cons] at unseen
    obtain ⟨fresh, insideDistinct, restDistinct, apart⟩ := distinct
    rw [List.mem_append, not_or] at fresh
    refine .group found rfl unseen.1 box ?_ ?_
    · rw [lists]
      apply within inShows insideDistinct
      intro id h
      rw [List.mem_cons, not_or]
      refine ⟨?_, unseen.2 id (List.mem_append_left _ h)⟩
      rintro rfl
      exact fresh.1 h
    · apply after restShows restDistinct
      intro id h
      simp only [List.mem_append, List.mem_reverse, List.mem_cons, not_or]
      refine ⟨fun other => apart id other id h rfl, ?_, unseen.2 id (List.mem_append_right _ h)⟩
      rintro rfl
      exact fresh.2 h

end Forest

/-- Where no id is listed twice the search passes over nothing: it shows the table. -/
theorem shows_of_explores (keyed : ∀ p ∈ table.entries, p.1 = p.2.id)
    (explored : Explores table (fun _ => false) visited keys f)
    (there : ∀ key ∈ keys, table.contains key) (once : (keys ++ listings table f.preorder).Nodup)
    (unseen : ∀ key ∈ keys ++ listings table f.preorder, key ∉ visited) :
    f.tops = keys ∧ f.Shows table := by
  induction explored with
  | done => exact ⟨rfl, trivial⟩
  | @absent visited key keys f found _ _ =>
    have := there key (List.mem_cons_self ..)
    simp [Table.contains, found] at this
  | @passed visited key keys e f found seen _ _ =>
    have own := id_of_get? keyed found
    simp only [Bool.false_eq_true, false_or, own] at seen
    exact absurd seen (unseen key (by simp))
  | @leaf visited key keys e rest found _ _ other _ ih =>
    have own := id_of_get? keyed found
    rw [Forest.preorder, listings_other other, List.cons_append] at once unseen
    rw [List.nodup_cons] at once
    obtain ⟨tops, shown⟩ := ih (fun k h => there k (List.mem_cons_of_mem _ h)) once.2 fun k h => by
      rw [List.mem_cons, not_or, own]
      exact ⟨fun same => once.1 (same ▸ h), unseen k (List.mem_cons_of_mem _ h)⟩
    exact ⟨by rw [Forest.tops, own, tops], by rw [own]; exact found, other, shown⟩
  | @group visited key keys e inside rest found _ _ box _ _ within after =>
    have own := id_of_get? keyed found
    rw [Forest.preorder, listings_box box, listings_append, List.cons_append] at once unseen
    rw [List.nodup_cons, List.nodup_append, List.nodup_append, List.nodup_append] at once
    obtain ⟨fresh, keysOnce, ⟨listedOnce, ⟨insideOnce, restOnce, aside⟩, apart⟩, below⟩ := once
    simp only [List.mem_append] at fresh apart below
    simp only [List.mem_cons, List.mem_append] at unseen
    have insideUnseen : ∀ k ∈ childKeys table e ++ listings table inside.preorder,
        k ∉ e.id :: visited := by
      intro k h
      rw [List.mem_append] at h
      rw [List.mem_cons, not_or, own]
      refine ⟨?_, unseen k (by grind)⟩
      rintro rfl
      exact fresh (by grind)
    obtain ⟨insideTops, insideShown⟩ := within (fun k h => contains_of_mem_childKeys h)
      (List.nodup_append.2 ⟨listedOnce, insideOnce, fun a ha b hb => apart a ha b (.inl hb)⟩)
      insideUnseen
    have insideIds : ∀ id ∈ inside.ids, id ∈ childKeys table e ∨ id ∈ listings table inside.preorder := by
      intro id h
      rw [← insideTops, ← insideShown.mem_inner_iff]
      exact Forest.mem_ids_iff.1 h
    have restUnseen : ∀ k ∈ keys ++ listings table rest.preorder,
        k ∉ inside.ids.reverse ++ e.id :: visited := by
      intro k h
      rw [List.mem_append] at h
      simp only [List.mem_append, List.mem_reverse, List.mem_cons, not_or, own]
      refine ⟨fun seen => ?_, ?_, unseen k (by grind)⟩
      · rcases insideIds k seen with listed | deeper <;> rcases h with h | h
        · exact below k h k (.inl listed) rfl
        · exact apart k listed k (.inr h) rfl
        · exact below k h k (.inr (.inl deeper)) rfl
        · exact aside k deeper k h rfl
      · rintro rfl
        exact fresh (by grind)
    obtain ⟨tops, shown⟩ := after (fun k h => there k (List.mem_cons_of_mem _ h))
      (List.nodup_append.2 ⟨keysOnce, restOnce, fun a ha b hb => below a ha b (.inr (.inr hb))⟩)
      restUnseen
    exact ⟨by rw [Forest.tops, own, tops], by rw [own]; exact found, box, insideTops.symm, insideShown,
      shown⟩

/-! ### Outlines -/

theorem mem_rootKeys_iff (keyed : ∀ p ∈ table.entries, p.1 = p.2.id) {key : String} :
    key ∈ rootKeys table (fun _ => false) ↔
      table.contains key ∧ key ∉ listings table table.values := by
  simp only [rootKeys, List.mem_map, List.mem_filter, Prod.exists, exists_and_right,
    exists_eq_right, Bool.not_false, Bool.true_and, Bool.not_eq_true', List.contains_iff_mem,
    ← Bool.not_eq_true, mem_nestedIds_iff keyed]
  constructor
  · rintro ⟨e, entry, top⟩
    rw [← keyed _ entry] at top
    exact ⟨Table.contains_iff.2 (List.mem_map.2 ⟨_, entry, rfl⟩), top⟩
  · rintro ⟨there, top⟩
    obtain ⟨⟨_, e⟩, entry, rfl⟩ := List.mem_map.1 (Table.contains_iff.1 there)
    exact ⟨e, entry, by rwa [← keyed _ entry]⟩

theorem nodup_rootKeys (table : Table Element) (skip : Element → Bool) :
    (rootKeys table skip).Nodup := Table.nodup_sublist List.filter_sublist table.nodup

/-- A nested table has for its outline a forest that shows all of it, once each. -/
theorem exists_shown (nested : Nested table) :
    ∃ f : Forest, ofElements table (fun _ => false) = f.items 1 ∧ f.Shows table ∧
      f.ids.Perm table.keys := by
  obtain ⟨f, explored⟩ := exists_explores table (fun _ => false) [] (rootKeys table fun _ => false)
  obtain ⟨distinct, -⟩ := nodup_of_explores explored
  have among : f.preorder ⊆ table.values := fun e h =>
    have ⟨_, found⟩ := mem_of_explores explored e h
    Table.mem_values_of_get? found
  have once : (listings table f.preorder).Nodup :=
    nodup_listings nested.once (List.Nodup.of_map _ distinct) among
  have apart : (rootKeys table (fun _ => false) ++ listings table f.preorder).Nodup := by
    rw [List.nodup_append]
    refine ⟨nodup_rootKeys _ _, once, fun a root b below same => ?_⟩
    obtain ⟨e, found, listed⟩ := mem_listings_iff.1 (same ▸ below)
    exact ((mem_rootKeys_iff nested.keyed).1 root).2 (mem_listings_iff.2 ⟨e, among found, listed⟩)
  obtain ⟨-, shown⟩ := shows_of_explores nested.keyed explored
    (fun key root => ((mem_rootKeys_iff nested.keyed).1 root).1) apart (by simp)
  refine ⟨f, ofElements_of_explores explored, shown, ?_⟩
  apply (List.perm_ext_iff_of_nodup distinct table.nodup).2
  intro id
  constructor
  · intro h
    obtain ⟨e, found, rfl⟩ := List.mem_map.1 h
    have := shown.get? e found
    exact Table.contains_iff.1 (by simp [Table.contains, this])
  · intro h
    obtain ⟨⟨_, e⟩, entry, rfl⟩ := List.mem_map.1 h
    rw [nested.keyed _ entry]
    exact mem_ids_of_explores nested.keyed nested.acyclic (fun _ _ _ => rfl) explored
      (Table.mem_values_iff.2 ⟨_, entry, rfl⟩) rfl

namespace Forest

/-- The entries of a table that holds the forest in order. -/
def entries (f : Forest) : List (String × Element) := f.preorder.map fun e => (e.id, e)

theorem filter_ids {f : Forest} {below : String → Bool} (tops : ∀ id ∈ f.tops, below id = false)
    (inner : ∀ id ∈ f.inner, below id) : (f.ids.filter fun id => !below id) = f.tops := by
  induction f with
  | nil => rfl
  | leaf e rest ih =>
    rw [Forest.tops, List.forall_mem_cons] at tops
    rw [ids_leaf, List.filter_cons_of_pos (by simp [tops.1]), ih tops.2 inner, Forest.tops]
  | group e inside rest _ ih =>
    rw [Forest.tops, List.forall_mem_cons] at tops
    simp only [Forest.inner, List.mem_append, or_imp, forall_and] at inner
    have none : (inside.ids.filter fun id => !below id) = [] := by
      rw [List.filter_eq_nil_iff]
      intro id h
      simp [inner.1 id h]
    rw [ids_group, List.filter_cons_of_pos (by simp [tops.1]), List.filter_append, none,
      List.nil_append, ih tops.2 inner.2, Forest.tops]

end Forest

/-- A table that holds a forest in order has that forest for its outline. -/
theorem ofElements_of_shows (shown : f.Shows table) (distinct : f.ids.Nodup)
    (holds : table.entries = f.entries) : ofElements table (fun _ => false) = f.items 1 := by
  have keyed : ∀ p ∈ table.entries, p.1 = p.2.id := by
    rw [holds]
    simp [Forest.entries]
  have values : table.values = f.preorder := by
    unfold Table.values
    simp [holds, Forest.entries, Function.comp_def]
  have nested (id : String) : (nestedIds table).contains id ↔ id ∈ f.inner := by
    rw [List.contains_iff_mem, mem_nestedIds_iff keyed, values, shown.mem_inner_iff]
  have roots : rootKeys table (fun _ => false) = f.tops := by
    have outside : ∀ id ∈ f.tops, (nestedIds table).contains id = false := by
      intro id top
      rw [← Bool.not_eq_true, nested]
      exact Forest.disjoint_tops_inner distinct id top
    rw [← Forest.filter_ids outside fun id h => (nested id).2 h]
    unfold rootKeys Forest.ids
    rw [holds, Forest.entries, List.filter_map, List.filter_map, List.map_map]
    rfl
  apply ofElements_of_explores
  rw [roots]
  exact shown.explores distinct (by simp)

end DiagramText.Outline
