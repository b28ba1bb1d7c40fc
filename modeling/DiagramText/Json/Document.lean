import DiagramText.Json.Basic

/-! Documents: JSON seen one level at a time. A document is a value in memory or a text that has
been read; what is decoded from it is said once for both. In an array of fields the fields come in
their order of declaration. -/
namespace DiagramText.Json

/-- The outermost level of a document. `unreadable` is well-formed text that stands for no value:
a number out of range, half a surrogate pair, or a nesting that is too deep. -/
inductive Layer (τ : Type) where
  | null
  | bool (b : Bool)
  | num (n : Number)
  | str (s : String)
  | arr (items : List τ)
  | obj (fields : List (String × τ))
  | unreadable

class Document (τ : Type) where
  layer : τ → Layer τ
  value? : τ → Option Json

instance : Document Json where
  layer
    | .null => .null
    | .bool b => .bool b
    | .num n => .num n
    | .str s => .str s
    | .arr items => .arr items
    | .obj fields => .obj fields
  value? := some

/-- Decoding fails as a whole when any part of what it needs is missing or of another kind. -/
abbrev Decoder (τ α : Type) := τ → Option α

namespace Decoder

variable {τ α : Type} [Document τ]

def string : Decoder τ String := fun t =>
  match Document.layer t with
  | .str s => some s
  | _ => none

def bool : Decoder τ Bool := fun t =>
  match Document.layer t with
  | .bool b => some b
  | _ => none

/-- An unsigned 64-bit integer, written without point and exponent. -/
def word : Decoder τ Nat := fun t =>
  match Document.layer t with
  | .num (.int n) => if 0 ≤ n ∧ n ≤ Json.maxWord then some n.toNat else none
  | _ => none

/-- Any number; an integer is rounded to the nearest. -/
def float : Decoder τ Binary64 := fun t =>
  match Document.layer t with
  | .num (.int n) => Binary64.ofRatio? (n < 0) n.natAbs 1
  | .num (.float x) => some x
  | _ => none

def value : Decoder τ Json := Document.value?

def list (d : Decoder τ α) : Decoder τ (List α) := fun t =>
  match Document.layer t with
  | .arr items => items.mapM d
  | _ => none

/-- Every field of an object; of two with one key the place of the first and the value of the last. -/
def table (d : Decoder τ α) : Decoder τ (Table α) := fun t =>
  match Document.layer t with
  | .obj fields => do
    let entries ← fields.mapM fun (k, x) => do let a ← d x; pure (k, a)
    pure (Table.ofList entries)
  | _ => none

def nullable (d : Decoder τ α) : Decoder τ (Option α) := fun t =>
  match Document.layer t with
  | .null => some none
  | _ => some <$> d t

/-- One of a fixed set of names, alone or as the only key of an object that holds `null`. -/
def oneOf (names : List (String × α)) : Decoder τ α := fun t =>
  match Document.layer t with
  | .str s => names.lookup s
  | .obj [(s, x)] =>
    match Document.layer x with
    | .null => names.lookup s
    | _ => none
  | _ => none

/-- The fields of a record: those of an object that are named, none of them twice, or the items of
an array in the order of the names. -/
def fields (names : List String) : Decoder τ (List (String × τ)) := fun t =>
  match Document.layer t with
  | .obj fs =>
    let known := fs.filter fun (k, _) => names.contains k
    if (known.map Prod.fst).Nodup then some known else none
  | .arr items => if items.length ≤ names.length then some (names.zip items) else none
  | _ => none

def required (fs : List (String × τ)) (name : String) (d : Decoder τ α) : Option α :=
  (fs.lookup name).bind d

def defaulted (fs : List (String × τ)) (name : String) (a : α) (d : Decoder τ α) : Option α :=
  match fs.lookup name with
  | none => some a
  | some t => d t

end Decoder
end DiagramText.Json
