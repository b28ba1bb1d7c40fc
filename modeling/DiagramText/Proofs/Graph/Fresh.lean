import Mathlib.Data.List.Nodup
import Mathlib.Data.List.Perm.Subperm
import Mathlib.Data.Nat.Find
import Mathlib.Order.Bounds.Defs
import DiagramText.Proofs.Graph.Growth

/-! Fresh ids of connections, in tables with any keys. A search counts up from a number, one probe for
each, until it meets one that is free; the numbers that it passes are taken, and since there are more
numbers in its reach than keys in the table, it ends. -/
namespace DiagramText

/-- A search from a number on, the probes that it takes, and the number that it ends at. Nothing bounds
it: after a number that is taken it goes on with the next. -/
inductive IdSearch (t : Table Connection) : (start probes found : Nat) → Prop where
  | free : connectionId n ∉ t.keys → IdSearch t n 1 n
  | taken : connectionId n ∈ t.keys → IdSearch t (n + 1) probes found → IdSearch t n (probes + 1) found

variable {t : Table Connection} {start probes found : Nat}

namespace IdSearch

theorem pos (search : IdSearch t start probes found) : 0 < probes := by
  cases search <;> exact Nat.succ_pos _

/-- A probe has one outcome, so that a search has one course. -/
theorem unique {p q i j : Nat} (one : IdSearch t start p i) (two : IdSearch t start q j) :
    p = q ∧ i = j := by
  induction one generalizing q with
  | free isFree =>
    cases two with
    | free => exact ⟨rfl, rfl⟩
    | taken isTaken => exact absurd isTaken isFree
  | taken isTaken _ ih =>
    cases two with
    | free isFree => exact absurd isTaken isFree
    | taken _ rest =>
      obtain ⟨rfl, rfl⟩ := ih rest
      exact ⟨rfl, rfl⟩

/-- What is found is free, and the first such number from the start on. -/
theorem isLeast (search : IdSearch t start probes found) :
    IsLeast {k | start ≤ k ∧ connectionId k ∉ t.keys} found := by
  induction search with
  | free isFree => exact ⟨⟨Nat.le_refl _, isFree⟩, fun k other => other.1⟩
  | taken isTaken _ ih =>
    refine ⟨⟨Nat.le_of_succ_le ih.1.1, ih.1.2⟩, fun k other => ih.2 ⟨?_, other.2⟩⟩
    rcases Nat.lt_or_eq_of_le other.1 with later | rfl
    · exact later
    · exact absurd isTaken other.2

/-- A search with a bound on its steps finds the same when the bound is no less than it needs. The last
number needs no step, as it is not looked at when the steps have run out. -/
theorem freeIdFrom_eq {fuel : Nat} (search : IdSearch t start probes found) (enough : probes ≤ fuel + 1) :
    freeIdFrom t fuel start = connectionId found := by
  induction search generalizing fuel with
  | free isFree => exact Graph.freeIdFrom_of_free (Table.contains_eq_false_iff.2 isFree) fuel
  | taken isTaken rest ih =>
    cases fuel with
    | zero => exact absurd (Nat.le_of_succ_le_succ enough) (Nat.not_le_of_gt rest.pos)
    | succ fuel =>
      rw [freeIdFrom, if_pos (Table.contains_iff.2 isTaken)]
      exact ih (Nat.le_of_succ_le_succ enough)

/-- A search passes the numbers that are taken, one probe for each. -/
theorem of_passed {passed : Nat} (taken : ∀ j < passed, connectionId (start + j) ∈ t.keys)
    (free : connectionId (start + passed) ∉ t.keys) :
    IdSearch t start (passed + 1) (start + passed) := by
  induction passed generalizing start with
  | zero => exact .free free
  | succ passed ih =>
    have shift (j : Nat) : start + (j + 1) = start + 1 + j := by omega
    have others : ∀ j < passed, connectionId (start + 1 + j) ∈ t.keys := fun j before =>
      shift j ▸ taken (j + 1) (Nat.succ_lt_succ before)
    rw [shift] at free ⊢
    exact .taken (taken 0 (Nat.succ_pos _)) (ih others free)

end IdSearch

/-- A table has no more numbers among its keys than keys. -/
theorem length_le_of_numbers_taken {n k : Nat} (taken : ∀ j < k, connectionId (n + j) ∈ t.keys) :
    k ≤ t.size := by
  have distinct : ((List.range k).map fun j => connectionId (n + j)).Nodup := by
    refine List.Nodup.map (fun i j same => ?_) List.nodup_range
    have := connectionId_injective same
    omega
  have among : (List.range k).map (fun j => connectionId (n + j)) ⊆ t.keys := by
    intro id listed
    obtain ⟨j, below, rfl⟩ := List.mem_map.1 listed
    exact taken j (List.mem_range.1 below)
  simpa [Table.keys, Table.size] using (distinct.subperm among).length_le

/-- Wherever it starts, a search ends after at most one probe more than there are keys. -/
theorem exists_search (t : Table Connection) (start : Nat) :
    ∃ probes ≤ t.size + 1, ∃ found, IdSearch t start probes found := by
  have some_free : ∃ passed, connectionId (start + passed) ∉ t.keys := by
    by_contra no_free
    push Not at no_free
    have all : t.size + 1 ≤ t.size := length_le_of_numbers_taken fun j _ => no_free j
    exact absurd all (Nat.not_succ_le_self _)
  have taken : ∀ j < Nat.find some_free, connectionId (start + j) ∈ t.keys := fun j before =>
    not_not.1 (Nat.find_min some_free before)
  exact ⟨_, Nat.succ_le_succ (length_le_of_numbers_taken taken), _,
    .of_passed taken (Nat.find_spec some_free)⟩

/-- The fresh id is what the search from the number behind the number of connections finds. -/
theorem nextConnectionId_of_search (search : IdSearch t (t.size + 1) probes found) :
    nextConnectionId t = connectionId found := by
  obtain ⟨most, enough, other, same⟩ := exists_search t (t.size + 1)
  obtain ⟨rfl, rfl⟩ := search.unique same
  exact search.freeIdFrom_eq enough

theorem nextConnectionId_not_mem (t : Table Connection) : nextConnectionId t ∉ t.keys := by
  obtain ⟨_, -, found, search⟩ := exists_search t (t.size + 1)
  rw [nextConnectionId_of_search search]
  exact search.isLeast.1.2

/-- A connection that is made goes to the end, and takes the place of none. -/
theorem Graph.entries_connect (g : Graph) (now : Instant) (source target kind label : String)
    (properties : List (String × Json)) :
    (g.connect now source target kind label properties).connections.entries =
      g.connections.entries ++ [(nextConnectionId g.connections,
        linkAs now (nextConnectionId g.connections) source target kind label properties)] :=
  Table.put_of_not_mem (nextConnectionId_not_mem _) _

end DiagramText
