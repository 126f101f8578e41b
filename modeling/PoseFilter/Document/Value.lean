import PoseFilter.Scalar

/-!
# Documents as trees

A settings document is a tree of tables, lists and plain values.  `Value.layer` lays one document
over another: tables are joined key by key, at every depth, and everything else is replaced.

* `Value.Entries.find?_put` : putting a key changes the value of that key alone.
-/

namespace PoseFilter

/-- A value of a document whose fractional numbers are in `α`. -/
inductive Value (α : Type)
  | text (s : String)
  | integer (n : Int)
  | number (x : α)
  | flag (b : Bool)
  | list (items : List (Value α))
  | table (entries : List (String × Value α))
  /-- A value that is present and says nothing. -/
  | absent

namespace Value

variable {α : Type}

instance : Inhabited (Value α) := ⟨.absent⟩

/-- The entries of a table. -/
abbrev Entries (α : Type) : Type := List (String × Value α)

/-- The value of a key. -/
def Entries.find? : Entries α → String → Option (Value α)
  | [], _ => none
  | (k, v) :: rest, key => if k = key then some v else Entries.find? rest key

/-- The value of a key replaced, or the key added at the end. -/
def Entries.put : Entries α → String → Value α → Entries α
  | [], key, value => [(key, value)]
  | (k, v) :: rest, key, value =>
    if k = key then (k, value) :: rest else (k, v) :: Entries.put rest key value

theorem Entries.find?_put (es : Entries α) (key other : String) (value : Value α) :
    (es.put key value).find? other = if key = other then some value else es.find? other := by
  induction es with
  | nil => simp [Entries.put, Entries.find?]
  | cons e rest ih =>
    obtain ⟨k, v⟩ := e
    by_cases h : k = key
    · subst h
      by_cases h' : k = other <;> simp [Entries.put, Entries.find?, h']
    · by_cases h' : k = other
      · subst h'
        simp [Entries.put, Entries.find?, h, Ne.symm h]
      · simp [Entries.put, Entries.find?, h, h', ih]

mutual

/-- One value laid over another. -/
def layer (base : Value α) : Value α → Value α
  | .table top =>
    match base with
    | .table entries => .table (layerEntries entries top)
    | _ => .table top
  | .text s => .text s
  | .integer n => .integer n
  | .number x => .number x
  | .flag b => .flag b
  | .list items => .list items
  | .absent => .absent

/-- The entries of one table laid over those of another. -/
def layerEntries (base : Entries α) : Entries α → Entries α
  | [] => base
  | (key, value) :: rest =>
    let joined :=
      match base.find? key with
      | some old => layer old value
      | none => value
    layerEntries (base.put key joined) rest

end

/-! ### Reading single values -/

/-- The integers of a document run from minus this bound up to, and without, the bound itself: they
fit 64 bits with a sign. -/
def integerBound : Nat := UInt64.size / 2

/-- A number; an integer is one too. -/
def number? [Scalar α] : Value α → Option α
  | .integer n => some (n : α)
  | .number x => some x
  | _ => none

/-- A text. -/
def text? : Value α → Option String
  | .text s => some s
  | _ => none

/-- A natural number below a bound. -/
def nat? (bound : Nat) : Value α → Option Nat
  | .integer (.ofNat n) => if n < bound then some n else none
  | _ => none

/-- What becomes of the values by which a list is longer than the record it stands for. -/
inductive Surplus
  | ignored
  | refused
  deriving DecidableEq

/-- The entries of a record with the given keys: a table, or a list of the values of the keys in
their order, of which the last may be missing. -/
def record? (surplus : Surplus) (keys : List String) : Value α → Option (Entries α)
  | .table entries => some entries
  | .list items =>
    if surplus = .ignored ∨ items.length ≤ keys.length then some (keys.zip items) else none
  | _ => none

/-- A list. -/
def list? : Value α → Option (List (Value α))
  | .list items => some items
  | _ => none

/-- The value of a key, read by `read`; `default` if the key is missing. -/
def Entries.optional {β : Type} (es : Entries α) (key : String) (read : Value α → Option β)
    (default : β) : Option β :=
  match es.find? key with
  | none => some default
  | some v => read v

/-- The value of a key that must be there, read by `read`. -/
def Entries.required {β : Type} (es : Entries α) (key : String) (read : Value α → Option β) :
    Option β :=
  (es.find? key).bind read

/-- The entries of a record that has no other keys than the given ones. -/
def closedRecord? (surplus : Surplus) (keys : List String) (v : Value α) : Option (Entries α) :=
  (v.record? surplus keys).filter fun es => es.all fun e => keys.contains e.1

/-- A record tagged by a word, with its other fields: the word stands under a key of the table or
at the head of the list. -/
def tagged? (tag : String) : Value α → Option (String × Value α)
  | .table entries =>
    (Entries.required entries tag text?).map fun word => (word, .table entries)
  | .list (first :: rest) => first.text?.map fun word => (word, .list rest)
  | _ => none

end Value

end PoseFilter
