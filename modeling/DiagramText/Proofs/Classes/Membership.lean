import DiagramText.Proofs.Classes.Formatting

/-! Members in three spellings. They may stand on the lines of a body, between braces on the line of
the class, or each on a line of its own behind the name. What a member is depends on its text alone,
so all three say the same, whatever the members look like. -/
namespace DiagramText.Classes

open Reader (Reads Refuses)
open Text (IsQuotable IsWord)

variable {now : Instant} {g : Graph} {name text : String} {members : List String} {cs ds : List Char}

/-- A class with its members on the lines of its body. -/
def blockLines (name : String) (members : List String) : List String :=
  ("class " ++ name ++ " \x7b") :: (members ++ ["\x7d"])

/-- A class with its members between braces, separated by semicolons. -/
def inlineLine (name : String) (members : List String) : String :=
  "class " ++ name ++ " \x7b " ++ "; ".intercalate members ++ " \x7d"

/-- A class and then each of its members behind its name. -/
def memberLines (name : String) (members : List String) : List String :=
  ("class " ++ name) :: members.map fun m => name ++ " : " ++ m

/-! ### Statements -/

/-- A name and a colon make a member of whatever is left of the line. -/
theorem reads_statement_member (word : IsWord name) (cs : List Char) :
    Reads statement (name.toList ++ ' ' :: ':' :: cs) (.member name (String.ofList (Text.trim cs))) [] := by
  have stops : Reader.Stops Text.isWordChar (' ' :: ':' :: cs) := (Reader.stops_cons _ ' ' _).2 (by decide)
  have named := Reader.reads_identifier word stops
  have toColon : Reads Reader.inlineBlanks (' ' :: ':' :: cs) () (':' :: cs) :=
    Reader.reads_space (by simp; decide)
  -- Neither a quoted cardinality nor a token starts with the colon.
  have noRelation : Refuses relation (name.toList ++ ' ' :: ':' :: cs) := by
    have noCardinality : Refuses (Reader.quoted <* Reader.inlineBlanks) (':' :: cs) := by
      rw [seqLeft_eq_bind]
      exact (Reader.refuses_quoted (by simp)).bind _
    have tokens : ∀ p ∈ pointings, p.1.toList.head?.any (· != ':') := by decide
    have noToken : Refuses (Reader.oneOf pointings) (':' :: cs) :=
      Reader.refuses_oneOf fun p there =>
        @Text.not_prefix_of_first p.1.toList [':'] cs (by simpa using tokens p there)
    exact named.refuses_bind (toColon.refuses_bind (noCardinality.optional.refuses_bind (noToken.bind _)))
  have read : Reads member (name.toList ++ ' ' :: ':' :: cs) (.member name (String.ofList (Text.trim cs))) [] :=
    named.bind (toColon.bind ((Reader.reads_token_char rfl cs).bind
      ((Reader.reads_restTrimmed cs).bind (Reads.pure _ []))))
  have blank : ∀ c ∈ [' '], Text.isInlineBlank c := Text.forall_mem_of_all rfl
  have noClass : Refuses declare (name.toList ++ ' ' :: ':' :: cs) :=
    refuses_declare word blank (List.forall_mem_nil _) (by decide) stops
  exact noClass.orElse ((refuses_stereotype word _).orElse (noRelation.orElse read.orElse))

/-! ### Members -/

namespace Draft

/-- The graph with some texts added to a class as members, one after the other. -/
def addMembers (now : Instant) (name : String) (g : Graph) (members : List String) : Graph :=
  members.foldl (fun g m => addMember now g name m.toList) g

/-- Blanks at the ends of a member do not count. -/
theorem addMember_congr (same : Text.trim cs = Text.trim ds) (g : Graph) :
    addMember now g name cs = addMember now g name ds := by
  have read : Member.ofText? cs = Member.ofText? ds := by rw [Member.ofText?, Member.ofText?, same]
  rw [addMember, addMember, read]

theorem addMember_blank (blank : ∀ c ∈ cs, Text.isBlank c) (g : Graph) : addMember now g name cs = g := by
  have none : Member.ofText? cs = none := if_pos (Text.trim_eq_nil_iff.2 blank)
  rw [addMember, none]

theorem addMembers_withElement (members : List String) (e : Element) :
    addMembers now name (g.withElement name e) members = g.withElement name
      ((members.filterMap fun m => Member.ofText? m.toList).foldl (fun e m => record m e) e) := by
  induction members generalizing e with
  | nil => rfl
  | cons m members ih =>
    rw [addMembers, List.foldl_cons, ← addMembers]
    cases read : Member.ofText? m.toList with
    | none =>
      have kept : addMember now (g.withElement name e) name m.toList = g.withElement name e := by
        rw [addMember, read]
      rw [kept, ih, List.filterMap_cons, read]
    | some member =>
      have added : addMember now (g.withElement name e) name m.toList = g.withElement name (record member e) := by
        rw [addMember, read]
        exact (congrArg (Graph.modifyElement · name (record member))
          (Graph.ensure_of_hasElement (Graph.hasElement_withElement e))).trans (Graph.modifyElement_withElement e _)
      rw [added, ih, List.filterMap_cons, read]
      rfl

/-- The pieces of what stands between the braces are the members, but for blanks at their ends. -/
theorem foldl_addMember_pieces (first : ';' ∉ cs) (free : ∀ m ∈ members, ';' ∉ m.toList) (g : Graph) :
    (Text.pieces ';' (cs ++ ((members.flatMap fun m => "; ".toList ++ m.toList) ++ [' ']))).foldl
        (addMember now · name ·) g = addMembers now name (addMember now g name cs) members := by
  induction members generalizing cs g with
  | nil =>
    have ended : Text.trim (cs ++ [' ']) = Text.trim cs := Text.trim_append_right (by simp; decide) cs
    have whole : Text.pieces ';' (cs ++ [' ']) = [cs ++ [' ']] := Text.pieces_eq_singleton (by simpa using first)
    rw [List.flatMap_nil, List.nil_append, whole]
    exact addMember_congr ended g
  | cons m members ih =>
    rw [List.forall_mem_cons] at free
    have split : cs ++ (((m :: members).flatMap fun m => "; ".toList ++ m.toList) ++ [' ']) =
        cs ++ ';' :: ((' ' :: m.toList) ++ ((members.flatMap fun m => "; ".toList ++ m.toList) ++ [' '])) := by
      simp
    rw [split, Text.pieces_append, Text.pieces_eq_singleton first, List.singleton_append, List.foldl_cons,
      ih (by simpa using free.1) free.2, addMember_congr (Text.trim_space m.toList)]
    rfl

/-! ### Lines -/

/-- A class that is declared without a label is there, and goes on with its body. -/
theorem apply_declare_none (body : Option String) : apply now g (.declare name none body) =
    body.elim ⟨ensure now g name, none⟩ (addBody now (ensure now g name) name) := by
  have kept : (ensure now g name).modifyElement name (fun e => { e with label := (none : Option String).getD e.label }) =
      ensure now g name := Graph.modifyElement_eq_self fun _ => rfl
  cases body <;> simp only [apply, kept, Option.elim]

/-- The head of a class without a label. -/
theorem readLine_head (word : IsWord name) {tail : List Char} {body : Option String} (opening : Opening tail body)
    (split : text.toList = "class".toList ++ ' ' :: (name.toList ++ tail)) :
    readLine now ⟨g, none⟩ text = body.elim ⟨ensure now g name, none⟩ (addBody now (ensure now g name) name) := by
  have tight : Text.trim text.toList = text.toList := by
    rw [split]
    exact trim_head word none opening
  have head : Reads declare text.toList (.declare name none body) [] := by
    have noLabel : ∀ l ∈ (none : Option String), IsQuotable l := by simp
    rw [split]
    exact reads_declare word noLabel opening
  have said : Statement.ofText? text.toList = some (.declare name none body) := by
    rw [Statement.ofText?, tight]
    exact Reader.whole?_of_reads head.orElse
  unfold readLine
  dsimp only
  rw [tight, said]
  exact apply_declare_none body

theorem readLine_opened (word : IsWord name) :
    readLine now ⟨g, none⟩ ("class " ++ name ++ " \x7b") = ⟨ensure now g name, some name⟩ := by
  have chars : ("class " ++ name ++ " \x7b").toList = "class".toList ++ ' ' :: (name.toList ++ [' ', '\x7b']) := by
    simp
  have blank : addMember now (ensure now g name) name [] = ensure now g name := addMember_blank (by simp) _
  rw [readLine_head word (.brace [] (by decide)) chars, Option.elim, addBody, String.toList_ofList, Text.cut?, blank]

theorem readLine_inlineLine (word : IsWord name) (free : ∀ m ∈ members, '\x7d' ∉ m.toList ∧ ';' ∉ m.toList) :
    readLine now ⟨g, none⟩ (inlineLine name members) = ⟨addMembers now name (ensure now g name) members, none⟩ := by
  obtain ⟨inner, chars, noBrace, pieces⟩ : ∃ inner : List Char,
      (inlineLine name members).toList = "class".toList ++ ' ' :: (name.toList ++ ' ' :: '\x7b' :: (inner ++ ['\x7d'])) ∧
      '\x7d' ∉ inner ∧ (Text.pieces ';' inner).foldl (addMember now · name ·) (ensure now g name) =
        addMembers now name (ensure now g name) members := by
    cases members with
    | nil =>
      refine ⟨[' ', ' '], by simp [inlineLine], by decide, ?_⟩
      have blank : ∀ c ∈ [' ', ' '], Text.isBlank c := Text.forall_mem_of_all rfl
      have kept : addMember now (ensure now g name) name [' ', ' '] = ensure now g name := addMember_blank blank _
      exact kept
    | cons m members =>
      rw [List.forall_mem_cons] at free
      refine ⟨(' ' :: m.toList) ++ ((members.flatMap fun m => "; ".toList ++ m.toList) ++ [' ']), ?_, ?_, ?_⟩
      · rw [inlineLine, String.toList_append, String.toList_append, Text.toList_intercalate_cons]
        simp
      · simpa using ⟨free.1.1, fun m there => (free.2 m there).1⟩
      · rw [foldl_addMember_pieces (by simpa using free.1.2) (fun m there => (free.2 m there).2),
          addMember_congr (Text.trim_space m.toList)]
        rfl
  have solid : Text.EndsSolid ('\x7b' :: (inner ++ ['\x7d'])) :=
    Text.EndsSolid.append_of_ne_nil (List.cons_ne_nil _ _) (by decide) ('\x7b' :: inner)
  rw [readLine_head word (.brace _ solid) chars, Option.elim, addBody, String.toList_ofList,
    Text.cut?_append noBrace]
  exact congrArg (Draft.mk · none) pieces

theorem readLine_member (word : IsWord name) (m : String) :
    readLine now ⟨g, none⟩ (name ++ " : " ++ m) = ⟨addMember now g name m.toList, none⟩ := by
  -- What is trimmed off the line is trimmed off the member.
  have tight : Text.trim (name ++ " : " ++ m).toList = name.toList ++ ' ' :: ':' :: Text.trimRight (' ' :: m.toList) := by
    have trimmed := word.trim_append_cons [' '] (c := ':') (by decide) (' ' :: m.toList)
    simpa using trimmed
  have inner : Text.trim (Text.trim (Text.trimRight (' ' :: m.toList))) = Text.trim m.toList := by
    rw [Text.trim_trim, Text.trim_trimRight, Text.trim_space]
  have said : Statement.ofText? (Text.trim (name ++ " : " ++ m).toList) =
      some (.member name (String.ofList (Text.trim (Text.trimRight (' ' :: m.toList))))) := by
    rw [Statement.ofText?, Text.trim_trim, tight]
    exact Reader.whole?_of_reads (reads_statement_member word _)
  unfold readLine
  dsimp only
  rw [said]
  exact congrArg (Draft.mk · none) (addMember_congr (by rw [String.toList_ofList, inner]) g)

/-- Whatever a line of an open body looks like, it is a member unless it closes the body. -/
theorem foldl_readLine_body (free : ∀ m ∈ members, '\x7d' ∉ m.toList) :
    members.foldl (readLine now) ⟨g, some name⟩ = ⟨addMembers now name g members, some name⟩ := by
  induction members generalizing g with
  | nil => rfl
  | cons m members ih =>
    rw [List.forall_mem_cons] at free
    have uncut : Text.cut? '\x7d' (Text.trim m.toList) = none :=
      Text.cut?_eq_none fun h => free.1 (Text.mem_of_mem_trim h)
    have read : readLine now ⟨g, some name⟩ m = ⟨addMember now g name m.toList, some name⟩ := by
      unfold readLine
      dsimp only
      rw [uncut]
      exact congrArg (Draft.mk · (some name)) (addMember_congr (Text.trim_trim _) g)
    rw [List.foldl_cons, read, ih free.2]
    rfl

theorem foldl_readLine_blockLines (word : IsWord name) (free : ∀ m ∈ members, '\x7d' ∉ m.toList) :
    (blockLines name members).foldl (readLine now) ⟨g, none⟩ =
      ⟨addMembers now name (ensure now g name) members, none⟩ := by
  rw [blockLines, List.foldl_cons, List.foldl_append, readLine_opened word, foldl_readLine_body free]
  exact readLine_brace

theorem foldl_readLine_memberLines (word : IsWord name) :
    (memberLines name members).foldl (readLine now) ⟨g, none⟩ =
      ⟨addMembers now name (ensure now g name) members, none⟩ := by
  have declared : readLine now ⟨g, none⟩ ("class " ++ name) = ⟨ensure now g name, none⟩ :=
    readLine_head word .none (by simp)
  have each (g : Graph) : (members.map fun m => name ++ " : " ++ m).foldl (readLine now) ⟨g, none⟩ =
      ⟨addMembers now name g members, none⟩ := by
    induction members generalizing g with
    | nil => rfl
    | cons m members ih =>
      rw [List.map_cons, List.foldl_cons, readLine_member word, ih]
      rfl
  rw [memberLines, List.foldl_cons, declared, each]

end Draft

/-! ### The three spellings -/

/-- The members of a class can be written in any of the three spellings, before the same lines. Each
text that is not blank is one member, in the order of the texts. -/
theorem read_spellings (now : Instant) (word : IsWord name)
    (free : ∀ m ∈ members, '\x7d' ∉ m.toList ∧ ';' ∉ m.toList) (below : List String) :
    read now (blockLines name members ++ below) = read now (inlineLine name members :: below) ∧
      read now (memberLines name members ++ below) = read now (inlineLine name members :: below) ∧
      read now [inlineLine name members] = Graph.empty.withElement name
        ((members.filterMap fun m => Member.ofText? m.toList).foldl (fun e m => Draft.record m e)
          (Draft.newClass now name 0)) := by
  have inline : Draft.readLine now .empty (inlineLine name members) =
      ⟨Draft.addMembers now name (Draft.ensure now .empty name) members, none⟩ :=
    Draft.readLine_inlineLine word free
  have block : (blockLines name members).foldl (Draft.readLine now) .empty = _ :=
    Draft.foldl_readLine_blockLines word fun m there => (free m there).1
  have apart : (memberLines name members).foldl (Draft.readLine now) .empty = _ :=
    Draft.foldl_readLine_memberLines word
  refine ⟨?_, ?_, ?_⟩
  · rw [read, read, List.foldl_append, List.foldl_cons, block, inline]
  · rw [read, read, List.foldl_append, List.foldl_cons, apart, inline]
  · have made : Draft.ensure now .empty name = Graph.empty.withElement name (Draft.newClass now name 0) :=
      Graph.ensure_of_fresh List.not_mem_nil
    rw [read, List.foldl_cons, List.foldl_nil, inline, made]
    exact Draft.addMembers_withElement members _

/-- A stereotype, a method, a blank text, and members that look like other statements. -/
def likeStatements : List String := ["<< data >>", " go(to: String) ", "A --|> B : is a", "", "class B \x7b"]

theorem read_spellings_likeStatements :
    read .epoch (blockLines "class" likeStatements ++ ["class --> B"]) =
      read .epoch (inlineLine "class" likeStatements :: ["class --> B"]) ∧
    read .epoch (memberLines "class" likeStatements ++ ["class --> B"]) =
      read .epoch (inlineLine "class" likeStatements :: ["class --> B"]) ∧
    read .epoch [inlineLine "class" likeStatements] = Graph.empty.withElement "class"
      ([.stereotype "data", .method "go(to: String)", .attribute "A --|> B : is a", .attribute "class B \x7b"].foldl
        (fun e m => Draft.record m e) (Draft.newClass .epoch "class" 0)) :=
  read_spellings .epoch (by decide) (by decide) ["class --> B"]

end DiagramText.Classes
