import DiagramText.Proofs.Flowchart.Excerpts
import DiagramText.Proofs.Flowchart.Soundness

/-! Chains and their hops. A chain of edges draws what its hops draw one after the other, each on a line
of its own that starts with the node that was reached. -/
namespace DiagramText.Flowchart

open Reader (Reads Refuses Yields)
open Text (IsWord)

variable {cs rest : List Char} {ref : NodeRef} {l : Link}

/-! ### Chains -/

/-- A statement that is read as a chain opens no subgraph, which would come first. -/
theorem chain_of_statement {head : NodeRef} {links : List Link}
    (taken : statement cs = some (.chain head links, rest)) :
    Refuses subgraph cs ∧ chain cs = some (.chain head links, rest) := by
  have group : Yields subgraph (· ≠ .chain head links) :=
    (Reader.yields_any _).bind fun _ _ => (Reader.yields_any _).bind fun _ _ =>
      (Reader.yields_any _).bind fun _ _ => Reader.yields_pure Statement.noConfusion
  constructor
  · cases opened : subgraph cs with
    | none => exact opened
    | some p =>
      have first : statement cs = some p := Reads.orElse opened
      obtain rfl := Option.some.inj (first.symm.trans taken)
      exact absurd rfl (group _ _ _ opened)
  · obtain ⟨r, among, read⟩ := Reader.firstOf_eq_some taken
    simp only [List.mem_cons, List.not_mem_nil, or_false] at among
    rcases among with rfl | rfl | rfl | rfl | rfl | rfl
    · exact absurd rfl (group _ _ _ read)
    · have close : Yields (Reader.token "end" *> Reader.atEnd *> pure Statement.close) (· ≠ .chain head links) :=
        Reader.Yields.seqRight _ (Reader.yields_pure Statement.noConfusion)
      exact absurd rfl (close _ _ _ read)
    · have style : Yields style (· ≠ .chain head links) :=
        (Reader.yields_any _).bind fun _ _ => (Reader.yields_any _).bind fun _ _ =>
          (Reader.yields_any _).bind fun _ _ => (Reader.yields_any _).bind fun _ _ =>
            (Reader.yields_any _).bind fun _ _ => Reader.yields_pure Statement.noConfusion
      exact absurd rfl (style _ _ _ read)
    · have direction : Yields directionLine (· ≠ .chain head links) :=
        (Reader.yields_any _).bind fun _ _ => (Reader.yields_any _).bind fun _ _ =>
          (Reader.yields_any _).bind fun _ _ => (Reader.yields_any _).bind fun _ _ =>
            Reader.yields_pure Statement.noConfusion
      exact absurd rfl (direction _ _ _ read)
    · exact read
    · have node : Yields (do let ref ← nodeRef; Reader.atEnd; pure (Statement.node ref)) (· ≠ .chain head links) :=
        (Reader.yields_any _).bind fun _ _ => (Reader.yields_any _).bind fun _ _ =>
          Reader.yields_pure Statement.noConfusion
      exact absurd rfl (node _ _ _ read)

theorem chain_eq_some {head : NodeRef} {links : List Link} (taken : chain cs = some (.chain head links, rest)) :
    ∃ mid, Reads nodeRef cs head mid ∧ links ≠ [] ∧ Reads (Reader.many link) mid links [] := by
  obtain ⟨ref, mid, mention, taken⟩ := Reader.bind_eq_some taken
  obtain ⟨hops, left, linked, taken⟩ := Reader.bind_eq_some taken
  obtain ⟨_, last, ended, made⟩ := Reader.bind_eq_some taken
  obtain ⟨same, rfl⟩ := Reader.pure_eq_some made
  obtain ⟨rfl, rfl⟩ := Statement.chain.inj same
  obtain ⟨some, items⟩ := Reader.many_of_many1 consumes_link linked
  unfold Reader.atEnd at ended
  split at ended
  · next none => exact ⟨mid, mention, some, none ▸ items⟩
  · cases ended

/-! ### Texts of chains -/

/-- A hop with its text: an arrow, perhaps a label, and the mention of the target. -/
structure Hop where
  text : List Char
  link : Link
deriving DecidableEq, Repr

/-- A text cut at the ends of the hops that are read off it one after the other. -/
inductive Cut : List Char → List Hop → Prop where
  | nil : Cut [] []
  | cons {hop : Hop} {rest : List Char} {hops : List Hop} (linked : Reads link (hop.text ++ rest) hop.link rest)
      (others : Cut rest hops) : Cut (hop.text ++ rest) (hop :: hops)

/-- A text that starts with the mention of a node, and goes on with hops to the end. -/
def Spells (cs : List Char) (head : NodeRef) (start : List Char) (hops : List Hop) : Prop :=
  ∃ rest, cs = start ++ rest ∧ Reads nodeRef cs head rest ∧ Cut rest hops

variable {hops : List Hop}

theorem exists_cut {links : List Link} (taken : Reads (Reader.many link) cs links []) :
    ∃ hops, Cut cs hops ∧ hops.map (·.link) = links := by
  induction links generalizing cs with
  | nil =>
    obtain rfl := Reader.many_eq_nil consumes_link taken
    exact ⟨[], .nil, rfl⟩
  | cons l links ih =>
    obtain ⟨mid, linked, others⟩ := Reader.many_eq_cons consumes_link taken
    obtain ⟨hops, cut, rfl⟩ := ih others
    obtain ⟨text, rfl⟩ := restricts_link.leaves _ _ _ linked
    exact ⟨⟨text, l⟩ :: hops, @Cut.cons ⟨text, l⟩ _ _ linked cut, rfl⟩

/-- However a text is cut, its hops are the links that are read off it. -/
theorem Cut.reads (cut : Cut cs hops) : Reads (Reader.many link) cs (hops.map (·.link)) [] := by
  induction cut with
  | nil => exact Reader.reads_many_nil link
  | cons linked _ ih => exact Reader.reads_many_cons consumes_link linked ih

/-! ### Hops on lines of their own -/

/-- A mention and one link make a statement of their own, unless it opens a subgraph. -/
theorem ofText?_hop {mid : List Char} (mention : Reads nodeRef cs ref mid) (linked : Reads link mid l [])
    (noGroup : Refuses subgraph cs) : Statement.ofText? cs = some (.chain ref [l]) := by
  obtain ⟨word, detail, split, isDetail⟩ := nodeRef_eq_some mention
  obtain ⟨some, solid⟩ := endsSolid_of_link linked
  have tight : Text.trim cs = cs := by
    rw [split]
    apply word.trim_of_endsSolid
    rw [← List.append_assoc]
    exact solid.append_of_ne_nil some _
  have read : Reads chain cs (.chain ref [l]) [] :=
    mention.bind ((Reader.reads_many1 linked).bind (Reader.reads_atEnd.bind (Reads.pure _ [])))
  rw [Statement.ofText?, tight]
  apply Reader.whole?_of_reads
  rw [split] at noGroup read ⊢
  exact reads_statement_chain word (isDetail.follows (follows_of_link linked)) noGroup read

/-- Before a blank the keyword opens a subgraph, whatever comes then. -/
theorem exists_reads_subgraph {c : Char} (blank : Text.isInlineBlank c) (cs : List Char) :
    ∃ s, Reads subgraph ("subgraph".toList ++ c :: cs) s [] := by
  have run : Reads (Reader.run1 Text.isInlineBlank) (c :: cs) _ _ := if_neg (by simp [blank])
  have blanks : Reads Reader.inlineBlanks1 (c :: cs) () _ := run.bind (Reads.pure () _)
  have header := (blanks.seqRight (Reader.reads_rest _)).optional
  exact ⟨.subgraph _ _, (Reader.reads_token "subgraph" _).bind
    (header.bind (Reader.reads_atEnd.bind (Reads.pure _ [])))⟩

/-- No excerpt of a line opens a subgraph, if it starts with a node and a link and the line opens none. -/
theorem refuses_subgraph_excerpt {mid more : List Char} (mention : Reads nodeRef cs ref mid)
    (linked : Reads link mid l []) (refused : Refuses subgraph (cs ++ more)) : Refuses subgraph cs := by
  obtain ⟨word, detail, rfl, isDetail⟩ := nodeRef_eq_some mention
  refine refuses_subgraph word (isDetail.follows (follows_of_link linked)) fun same c first => ?_
  rw [← Bool.not_eq_true]
  intro blank
  obtain ⟨tail, split⟩ := List.head?_eq_some_iff.1 first
  obtain ⟨s, opened⟩ := exists_reads_subgraph blank (tail ++ more)
  rw [same, split, List.append_assoc, List.cons_append] at refused
  exact Option.some_ne_none _ (opened.symm.trans refused)

/-- The lines of hops, one each. The first goes on where the text before it ends; every further one has
the id of the node that was reached before it, and a gap. -/
def hopLines (gap before : List Char) : List Hop → List String
  | [] => []
  | h :: hops => String.ofList (before ++ h.text) :: hopLines gap (h.link.target.id.toList ++ gap) hops

/-- The statements of hops, each from the node that was reached. -/
def hopsFrom (source : NodeRef) : List Link → List Statement
  | [] => []
  | l :: links => .chain source [l] :: hopsFrom ⟨l.target.id, none, none⟩ links

variable {gap : List Char}

theorem Cut.statementsOf_hopLines (blank : ∀ c ∈ gap, Text.isInlineBlank c) (cut : Cut cs hops) {source : String}
    (word : IsWord source) (whole : ';' ∉ cs)
    (other : ∀ id ∈ (source :: hops.map (·.link.target.id)).dropLast, id ≠ "subgraph") :
    statementsOf (hopLines gap (source.toList ++ gap) hops) = hopsFrom ⟨source, none, none⟩ (hops.map (·.link)) := by
  induction cut generalizing source with
  | nil => rfl
  | @cons h rest hops linked others ih =>
    rw [List.map_cons, List.dropLast_cons_of_ne_nil (List.cons_ne_nil _ _), List.forall_mem_cons] at other
    rw [List.mem_append, not_or] at whole
    have alone : Reads link h.text h.link [] := restricts_link.excerpt h.text h.link [] rest linked
    -- The id that starts the line is not the last one of the chain, so it is no keyword.
    have spaced : Reads link (gap ++ h.text) h.link [] := (link_blanks blank h.text).trans alone
    have first : statementsOf [String.ofList (source.toList ++ gap ++ h.text)] =
        [.chain ⟨source, none, none⟩ [h.link]] := by
      refine statementsOf_line ?_ ?_
      · simp only [String.toList_ofList, List.mem_append, not_or]
        refine ⟨⟨fun there => absurd (word.chars _ there) (by decide), fun there => absurd (blank _ there) (by decide)⟩,
          whole.1⟩
      · rw [String.toList_ofList, List.append_assoc]
        exact ofText?_hop (reads_nodeRef_link word spaced) spaced
          (refuses_subgraph word (follows_of_link spaced) fun same => absurd same other.1)
    rw [hopLines, statementsOf_cons, first, ih (yields_link _ _ _ linked).1 whole.2 other.2]
    rfl

namespace Draft

variable {now : Instant} {d : Draft}

/-- Hops from a node that is there add the links of the chain one by one. -/
theorem foldl_hopsFrom {id : String} (there : d.graph.hasElement id) (links : List Link) :
    (hopsFrom ⟨id, none, none⟩ links).foldl (apply now) d = addLinks now d id links := by
  induction links generalizing d id with
  | nil => rfl
  | cons l links ih =>
    have hop : d.apply now (.chain ⟨id, none, none⟩ [l]) = addLinks now d id [l] := by
      rw [apply, declare_known there]
    rw [hopsFrom, List.foldl_cons, hop]
    exact ih (hasElement_declare now d l.target)

/-- A chain is applied hop by hop. -/
theorem apply_chain (head : NodeRef) {links : List Link} (some : links ≠ []) :
    d.apply now (.chain head links) = (hopsFrom head links).foldl (apply now) d := by
  cases links with
  | nil => exact absurd rfl some
  | cons l links =>
    have linked : (d.apply now (.chain head [l])).graph.hasElement l.target.id :=
      hasElement_declare now (d.declare now head) l.target
    rw [hopsFrom, List.foldl_cons]
    exact (foldl_hopsFrom linked links).symm

end Draft

/-- However the text of a chain is cut, its hops are those of the chain. -/
theorem Spells.links {head : NodeRef} {links : List Link} {start : List Char} (spells : Spells cs head start hops)
    (taken : chain cs = some (.chain head links, rest)) : hops.map (·.link) = links := by
  obtain ⟨behind, -, mention, cut⟩ := spells
  obtain ⟨mid, same, -, items⟩ := chain_eq_some taken
  obtain ⟨-, rfl⟩ := mention.inj same
  exact (cut.reads.inj items).1

/-- The lines of the hops of a chain say the hops. -/
theorem Spells.statementsOf_hopLines {head : NodeRef} {start : List Char} (blank : ∀ c ∈ gap, Text.isInlineBlank c)
    (spells : Spells cs head start hops) (whole : ';' ∉ cs) (noGroup : Refuses subgraph cs)
    (interior : ∀ l ∈ (hops.map (·.link)).dropLast, l.target.id ≠ "subgraph") :
    statementsOf (hopLines gap start hops) = hopsFrom head (hops.map (·.link)) := by
  obtain ⟨_, rfl, mention, cut⟩ := spells
  cases cut with
  | nil => rfl
  | @cons h more hops linked others =>
    simp only [List.mem_append, not_or] at whole
    rw [← List.append_assoc] at mention noGroup
    have alone : Reads link h.text h.link [] := restricts_link.excerpt h.text h.link [] more linked
    have mention : Reads nodeRef (start ++ h.text) head h.text := restricts_nodeRef.excerpt _ head h.text more mention
    have first : statementsOf [String.ofList (start ++ h.text)] = [.chain head [h.link]] := by
      refine statementsOf_line ?_ ?_ <;> rw [String.toList_ofList]
      · rw [List.mem_append, not_or]
        exact ⟨whole.1, whole.2.1⟩
      · exact ofText?_hop mention alone (refuses_subgraph_excerpt mention alone noGroup)
    have other : ∀ id ∈ (h.link.target.id :: hops.map (·.link.target.id)).dropLast, id ≠ "subgraph" := by
      intro id there
      have ids : h.link.target.id :: hops.map (·.link.target.id) = ((h :: hops).map (·.link)).map (·.target.id) := by
        simp
      rw [ids, ← List.map_dropLast] at there
      obtain ⟨l, among, rfl⟩ := List.mem_map.1 there
      exact interior l among
    rw [hopLines, statementsOf_cons, first,
      others.statementsOf_hopLines blank (yields_link _ _ _ linked).1 whole.2.2 other]
    rfl

/-- A chain of edges draws what its hops draw, each on a line of its own: the first goes up to the end of
its target, and every further one has the id of the node before it, perhaps a gap, and the hop as it
stands in the chain. Every chain can be cut into its hops, and each line says its hop. -/
theorem read_hopLines (now : Instant) (above below : List String) {line : String} {head : NodeRef} {links : List Link}
    (taken : Statement.ofText? line.toList = some (.chain head links)) (whole : ';' ∉ line.toList)
    (interior : ∀ l ∈ links.dropLast, l.target.id ≠ "subgraph") :
    (∃ start hops, Spells (Text.trim line.toList) head start hops) ∧
      ∀ start hops, Spells (Text.trim line.toList) head start hops → hops.map (·.link) = links ∧
        ∀ gap : List Char, (∀ c ∈ gap, Text.isInlineBlank c) →
          statementsOf (hopLines gap start hops) = hopsFrom head links ∧
          read now (above ++ (hopLines gap start hops ++ below)) = read now (above ++ line :: below) := by
  obtain ⟨noGroup, chained⟩ := chain_of_statement (Reader.whole?_eq_some taken)
  obtain ⟨mid, mention, some, items⟩ := chain_eq_some chained
  constructor
  · obtain ⟨start, split⟩ := restricts_nodeRef.leaves _ _ _ mention
    obtain ⟨hops, cut, -⟩ := exists_cut items
    exact ⟨start, hops, mid, split.symm, mention, cut⟩
  · intro start hops spells
    obtain rfl := spells.links chained
    refine ⟨rfl, fun gap blank => ?_⟩
    have free : ';' ∉ Text.trim line.toList := fun there => whole (Text.mem_of_mem_trim there)
    have apart := spells.statementsOf_hopLines blank free noGroup interior
    have joined := statementsOf_line whole taken
    have same : statementsOf (above ++ line :: below) =
        statementsOf above ++ (.chain head (hops.map (·.link)) :: statementsOf below) := by
      rw [statementsOf_append, statementsOf_cons, joined, List.singleton_append]
    refine ⟨apart, ?_⟩
    unfold read
    rw [Draft.foldl_readLine, Draft.foldl_readLine, same, statementsOf_append, statementsOf_append, apart,
      List.foldl_append, List.foldl_append, List.foldl_append, List.foldl_cons, Draft.apply_chain head some]

/-- The hops of a chain that comes back to where it starts, and goes on. -/
def hopSample : List Hop := [
  ⟨" -->|x| B:::c".toList, .plain, some "x", "B", none, some "c"⟩,
  ⟨"-.->A".toList, .dottedArrow, none, "A", none, none⟩,
  ⟨" --- end".toList, .line, none, "end", none, none⟩]

theorem read_hopLines_sample :
    hopLines [] "A((a))".toList hopSample = ["A((a)) -->|x| B:::c", "B-.->A", "A --- end"] ∧
      statementsOf (hopLines [] "A((a))".toList hopSample) =
        hopsFrom ⟨"A", some ("a", .circle), none⟩ (hopSample.map (·.link)) ∧
      read .epoch (["subgraph g"] ++ (hopLines [] "A((a))".toList hopSample ++ ["end"])) =
        read .epoch (["subgraph g"] ++ " A((a)) -->|x| B:::c-.->A --- end" :: ["end"]) := by
  have spells : Spells (Text.trim " A((a)) -->|x| B:::c-.->A --- end".toList) ⟨"A", some ("a", .circle), none⟩
      "A((a))".toList hopSample := by
    refine ⟨" -->|x| B:::c".toList ++ ("-.->A".toList ++ (" --- end".toList ++ [])), by decide +kernel,
      by unfold Reads; decide +kernel, ?_⟩
    refine @Cut.cons ⟨_, _⟩ _ _ ?_ (@Cut.cons ⟨_, _⟩ _ _ ?_ (@Cut.cons ⟨_, _⟩ _ _ ?_ .nil)) <;> unfold Reads <;>
      decide +kernel
  have taken : Statement.ofText? " A((a)) -->|x| B:::c-.->A --- end".toList =
      some (.chain ⟨"A", some ("a", .circle), none⟩ (hopSample.map (·.link))) := by decide +kernel
  have hops := (read_hopLines .epoch ["subgraph g"] ["end"] taken (by decide +kernel) (by decide +kernel)).2
  exact ⟨by decide +kernel, (hops _ _ spells).2 [] (by simp)⟩

end DiagramText.Flowchart
