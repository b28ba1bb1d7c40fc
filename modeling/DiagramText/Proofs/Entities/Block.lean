import DiagramText.Proofs.Entities.Soundness
import Mathlib.Data.List.TakeWhile

/-! The block of an entity: the lines between its braces. Line by line the grammar of one attribute
and that of many agree, but a block ends at the first closing brace wherever that stands, also inside
a word or a comment that an attribute may have. -/
namespace DiagramText.Entities

open DiagramText.Graph (Contents)
open Reader (Conveys Leaves Skips Yields YieldsWithout)

/-! ### Braces in attributes -/

variable {cs : List Char} {a : Attribute}

theorem conveys_word {c : Char} : Conveys c word fun s => c ∈ s.toList :=
  (Reader.conveys_run1 _).map fun cs inside => by rwa [String.toList_ofList]

theorem skips_keys : Skips '\x7d' keys := by
  have blanks : Skips '\x7d' Reader.inlineBlanks := Reader.skips_inlineBlanks (by decide)
  have comma : Skips '\x7d' comma :=
    Skips.seqRight (blanks.seqRight (Reader.skips_token (by decide))) blanks
  exact Skips.sepBy1 (Reader.skips_oneOf (by decide)) comma

/-- A brace in the text is in the attribute that is read: keys and blanks have none. -/
theorem conveys_attribute : Conveys '\x7d' attributeReader Attribute.HasBrace := by
  have blanks : Skips '\x7d' Reader.inlineBlanks1 := Reader.skips_inlineBlanks1 (by decide)
  have keys : Skips '\x7d' (optional (Reader.inlineBlanks1 *> keys)) := Skips.optional (blanks.seqRight skips_keys)
  have comment : Conveys '\x7d' (optional (Reader.inlineBlanks1 *> Reader.quoted)) fun o =>
      ∃ s ∈ o, '\x7d' ∈ s.toList :=
    (blanks.seqRight (Reader.conveys_quoted (by decide) (by decide))).optional
  refine conveys_word.bind (fun dataType shown => ?_) fun dataType => blanks.bind fun _ =>
    conveys_word.bind (fun name shown => ?_) fun name => keys.bind fun ks =>
      comment.bind (fun o shown => Reader.yields_pure (.inr (.inr shown))) fun o => Reader.conveys_pure _
  · exact (Reader.yields_any _).bind fun _ _ => (Reader.yields_any _).bind fun _ _ =>
      (Reader.yields_any _).bind fun _ _ => (Reader.yields_any _).bind fun _ _ => Reader.yields_pure (.inl shown)
  · exact (Reader.yields_any _).bind fun _ _ => (Reader.yields_any _).bind fun _ _ =>
      Reader.yields_pure (.inr (.inl shown))

theorem yieldsWithout_not_hasBrace : YieldsWithout '\x7d' attributeReader fun a => ¬ a.HasBrace := by
  have keys : Leaves (optional (Reader.inlineBlanks1 *> keys)) :=
    (Reader.leaves_inlineBlanks1.seqRight leaves_keys).optional
  have comment : YieldsWithout '\x7d' (optional (Reader.inlineBlanks1 *> Reader.quoted)) fun o =>
      ∀ s ∈ o, '\x7d' ∉ s.toList :=
    ((Reader.yieldsWithout_quoted (by decide)).seqRight Reader.leaves_inlineBlanks1).optional
  refine yieldsWithout_word.bind fun dataType typed => (Reader.leaves_inlineBlanks1.without '\x7d').bind
    fun _ _ => yieldsWithout_word.bind fun name named => (keys.without '\x7d').bind fun ks _ =>
      comment.bind fun o remarked => Reader.yieldsWithout_pure ?_
  rintro (shown | shown | ⟨s, there, shown⟩)
  · exact typed shown
  · exact named shown
  · exact remarked s there shown

theorem not_hasBrace_of_attributes? (free : '\x7d' ∉ cs) : ∀ a ∈ (attributes? cs).getD [], ¬ a.HasBrace := by
  cases read : attributes? cs with
  | none => exact List.forall_mem_nil _
  | some as =>
    exact (yieldsWithout_not_hasBrace.sepBy Reader.leaves_inlineBlanks1).whole?
      (fun h => free (Text.mem_of_mem_trim h)) read

/-! ### One attribute and many -/

theorem leaves_attribute : Leaves attributeReader :=
  have word : Leaves word := (Reader.leaves_run1 _).map String.ofList
  word.bind fun _ => Reader.leaves_inlineBlanks1.bind fun _ => word.bind fun _ =>
    (Reader.leaves_inlineBlanks1.seqRight leaves_keys).optional.bind fun _ =>
      (Reader.leaves_inlineBlanks1.seqRight Reader.leaves_quoted).optional.bind fun _ => Reader.leaves_pure _

/-- An attribute takes its line to the end: the blanks that may follow are trimmed off. -/
theorem reads_of_ofText? (read : Attribute.ofText? cs = some a) :
    Reader.Reads attributeReader (Text.trim cs) a [] := by
  have taken := Reader.whole?_eq_some read
  rw [seqLeft_eq_bind] at taken
  obtain ⟨b, mid, first, after⟩ := Reader.bind_eq_some taken
  obtain ⟨u, last, blanks, made⟩ := Reader.bind_eq_some after
  obtain ⟨rfl, rfl⟩ := Reader.pure_eq_some made
  obtain ⟨bs, same, all⟩ := Reader.inlineBlanks_eq_some blanks
  rw [List.append_nil] at same
  subst same
  obtain ⟨front, split⟩ := leaves_attribute _ _ _ first
  rcases List.eq_nil_or_concat mid with rfl | ⟨before, c, rfl⟩
  · exact first
  · have solid : Text.isBlank c = false :=
      Text.not_isBlank_of_getLast?_trim (by rw [← split, List.concat_eq_append]; simp)
    rw [Text.isBlank_of_isInlineBlank (all c (by simp))] at solid
    cases solid

theorem attributes?_of_ofText? (read : Attribute.ofText? cs = some a) :
    attributes? (Text.trim cs) = some [a] := by
  rw [attributes?, Text.trim_trim]
  exact Reader.whole?_of_reads
    ((reads_of_ofText? read).bind ((Reader.reads_many_nil _).bind (Reader.Reads.pure [a] []))).orElse

/-- An attribute has a closing brace if the text that it is read from has one. -/
theorem hasBrace_of_ofText? (read : Attribute.ofText? cs = some a) (brace : '\x7d' ∈ cs) : a.HasBrace := by
  have inside : '\x7d' ∈ Text.trim cs := Text.mem_trim (by decide) brace
  exact (conveys_attribute _ _ _ inside (reads_of_ofText? read)).resolve_right List.not_mem_nil

/-! ### What is read has no braces -/

/-- No statement gives an attribute with a closing brace: a block on one line is cut at the first. -/
def Statement.IsBraceless : Statement → Prop
  | .entity _ attributes _ => ∀ a ∈ attributes, ¬ a.HasBrace
  | .relationship .. => True

theorem yields_entity_braceless : Yields entity Statement.IsBraceless := by
  refine (Reader.yields_any _).bind fun name _ => (Reader.yields_any _).bind fun o _ =>
    (Reader.yields_any _).bind fun _ _ => ?_
  cases o with
  | none => exact Reader.yields_pure (List.forall_mem_nil _)
  | some cs =>
    dsimp only
    split
    · next inner behind cut =>
      exact Reader.yields_pure (not_hasBrace_of_attributes? (Text.not_mem_of_cut? cut))
    · next uncut =>
      exact Reader.yields_pure (not_hasBrace_of_attributes? (Text.not_mem_of_cut?_eq_none uncut))

theorem isBraceless_of_ofText? {s : Statement} (read : Statement.ofText? cs = some s) : s.IsBraceless := by
  have relationship : Yields relationship Statement.IsBraceless :=
    (Reader.yields_any _).bind fun _ _ => (Reader.yields_any _).bind fun _ _ => (Reader.yields_any _).bind
      fun _ _ => (Reader.yields_any _).bind fun _ _ => (Reader.yields_any _).bind fun _ _ =>
        (Reader.yields_any _).bind fun _ _ => (Reader.yields_any _).bind fun _ _ =>
          (Reader.yields_any _).bind fun _ _ => (Reader.yields_any _).bind fun _ _ => Reader.yields_pure trivial
  have each : Yields statement Statement.IsBraceless := by
    refine Reader.yields_firstOf fun r among => ?_
    simp only [List.mem_cons, List.not_mem_nil, or_false] at among
    rcases among with rfl | rfl
    · exact relationship
    · exact yields_entity_braceless
  exact each.whole? read

abbrev Braceless (g : Graph) : Prop := Contents (fun e => ∀ a ∈ attributesOf e, ¬ a.HasBrace) (fun _ => True) g

namespace Draft

variable {now : Instant} {g : Graph} {name : String}

theorem braceless_addAttributes (before : Braceless g) {attributes : List Attribute}
    (given : ∀ a ∈ attributes, ¬ a.HasBrace) : Braceless (addAttributes g name attributes) := by
  refine List.foldlRecOn attributes _ before fun _ sofar a there => sofar.modifyElement fun e clean => ?_
  rw [attributesOf_append, List.forall_mem_append, List.forall_mem_singleton]
  exact ⟨clean, given a there⟩

theorem braceless_apply (before : Braceless g) {s : Statement} (clean : s.IsBraceless) :
    Braceless (apply now g s).graph := by
  have ensured {g : Graph} (before : Braceless g) (name : String) : Braceless (ensure now g name) :=
    before.ensure fun _ => List.forall_mem_nil _
  cases s with
  | entity name attributes opensBlock => exact braceless_addAttributes (ensured before name) clean
  | relationship left right leftCardinality rightCardinality line label =>
    exact (ensured (ensured before left) right).connect fun _ => trivial

theorem braceless_readLine {d : Draft} (before : Braceless d.graph) (line : String) :
    Braceless (d.readLine now line).graph := by
  unfold readLine
  dsimp only
  split
  · split
    · next last behind cut =>
      exact braceless_addAttributes before (not_hasBrace_of_attributes? (Text.not_mem_of_cut? cut))
    · next uncut =>
      exact braceless_addAttributes before (not_hasBrace_of_attributes? (Text.not_mem_of_cut?_eq_none uncut))
  · split
    · next s said => exact braceless_apply before (isBraceless_of_ofText? said)
    · exact before

end Draft

/-- Whatever the lines say, no attribute that is read has a closing brace. -/
theorem braceless_read (now : Instant) (lines : List String) : Braceless (read now lines) :=
  List.foldlRecOn lines (motive := fun d : Draft => Braceless d.graph) _ Graph.contents_empty
    fun _ before line _ => Draft.braceless_readLine before line

/-! ### The lines of a block -/

/-- The lines of an entity with a block. -/
def blockLines (name : String) (lines : List String) : List String :=
  (name ++ " \x7b") :: (lines ++ ["\x7d"])

variable {now : Instant} {g : Graph} {name : String} {lines : List String} {attributes : List Attribute}

/-- A block whose lines have no closing brace gives the entity its attributes and is over. -/
theorem foldl_readLine_blockLines (isName : IsName name)
    (accepted : lines.map (fun line => Attribute.ofText? line.toList) = attributes.map some)
    (free : ∀ line ∈ lines, '\x7d' ∉ line.toList) : (blockLines name lines).foldl (Draft.readLine now) ⟨g, none⟩ =
      ⟨Draft.addAttributes (Draft.ensure now g name) name attributes, none⟩ := by
  rw [← List.forall₂_eq_eq_eq, List.forall₂_map_left_iff, List.forall₂_map_right_iff] at accepted
  have inside := accepted.imp fun _ _ read => attributes?_of_ofText? read
  have opened : Draft.readLine now ⟨g, none⟩ (name ++ " \x7b") = ⟨Draft.ensure now g name, some name⟩ :=
    Draft.readLine_said (says_entity isName .brace (by decide) (by simp))
  rw [blockLines, List.foldl_cons, opened, List.foldl_append,
    Draft.foldl_readLine_inside inside free, List.foldl_cons, List.foldl_nil,
    Draft.readLine_brace]

/-- An entity block holds exactly its attribute lines, and what is below is read as statements, if and
only if no line of the block has a closing brace. -/
theorem read_block_iff (now : Instant) (isName : IsName name)
    (accepted : lines.map (fun line => Attribute.ofText? line.toList) = attributes.map some) :
    (∀ line ∈ lines, '\x7d' ∉ line.toList) ↔
      ((read now (blockLines name lines)).elements.get? name).map storedAttributes =
          some (attributes.map Attribute.toJson) ∧
        ∀ below, read now (blockLines name lines ++ below) =
          (below.foldl (Draft.readLine now) ⟨read now (blockLines name lines), none⟩).graph := by
  constructor
  · intro free
    have block := @foldl_readLine_blockLines now .empty _ _ _ isName accepted free
    have whole : read now (blockLines name lines) =
        Draft.addAttributes (Draft.ensure now .empty name) name attributes := congrArg Draft.graph block
    constructor
    · rw [whole, Draft.storedAttributes_addAttributes]
    · intro below
      rw [whole, ← block, read, List.foldl_append]
      rfl
  · rintro ⟨stored, -⟩ line there brace
    obtain ⟨e, found, same⟩ := Option.map_eq_some_iff.1 stored
    obtain ⟨a, given, read⟩ : ∃ a ∈ attributes, some a = Attribute.ofText? line.toList :=
      List.mem_map.1 (accepted ▸ List.mem_map_of_mem there)
    have shown : attributesOf e = attributes := by rw [attributesOf, same, filterMap_toJson]
    exact (braceless_read now (blockLines name lines)).elements e (Table.mem_values_of_get? found) a
      (shown ▸ given) (hasBrace_of_ofText? read.symm brace)

/-- A bare attribute, and one with all that an attribute can have. -/
def blockSample : List String := ["string x", " int(11)\ty PK, FK \"a #quot;key#quot;\""]

def blockSampleAttributes : List Attribute :=
  [⟨"string", "x", [], none⟩, ⟨"int(11)", "y", ["PK", "FK"], some "a \"key\""⟩]

theorem read_block_iff_sample : (∀ line ∈ blockSample, '\x7d' ∉ line.toList) ↔
    ((read .epoch (blockLines "line-item" blockSample)).elements.get? "line-item").map storedAttributes =
        some (blockSampleAttributes.map Attribute.toJson) ∧
      ∀ below, read .epoch (blockLines "line-item" blockSample ++ below) =
        (below.foldl (Draft.readLine .epoch) ⟨read .epoch (blockLines "line-item" blockSample), none⟩).graph :=
  read_block_iff .epoch (by decide) (by decide +kernel)

/-- A closing brace in an accepted line ends the block before the attribute is whole. -/
theorem read_block_brace : Attribute.ofText? "string x\x7d".toList = some ⟨"string", "x\x7d", [], none⟩ ∧
    ((read .epoch (blockLines "A" ["string x\x7d"])).elements.get? "A").map attributesOf =
      some [⟨"string", "x", [], none⟩] := by decide +kernel

end DiagramText.Entities
