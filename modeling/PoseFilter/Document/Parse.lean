import PoseFilter.Document.Lexer

/-!
# Reading a document

The tables of a TOML document are opened by headers, by dotted keys and by lists of tables, and
may be spread over the text, but none may be defined twice.  While a document is read each table
therefore keeps a `Mark` of how it came about; `Document.parse?` forgets the marks at the end.
Lists and tables on one line are nested at most `Reader.maxDepth` deep.
-/

namespace PoseFilter

namespace Document

/-- How a table came about. -/
structure Mark where
  /-- Only passed through so far, not defined by a header of its own. -/
  implicit : Bool
  /-- Made by a dotted key. -/
  dotted : Bool

/-- A document while it is read. -/
inductive Node
  /-- A finished value. -/
  | leaf (v : Value Float)
  /-- A table that may still grow. -/
  | table (mark : Mark) (entries : List (String × Node))
  /-- A list of tables, the last of which may still grow. -/
  | tables (items : List (List (String × Node)))

namespace Node

/-- The entries of a table while it is read. -/
abbrev Entries : Type := List (String × Node)

/-- The node of a key. -/
def find? (es : Entries) (key : String) : Option Node :=
  (es.find? fun e => e.1 == key).map Prod.snd

/-- The node of a key replaced, or the key added at the end. -/
def put : Entries → String → Node → Entries
  | [], key, node => [(key, node)]
  | (k, n) :: rest, key, node =>
    if k = key then (k, node) :: rest else (k, n) :: put rest key node

/-- A change of the table at the end of a path.  Missing tables on the way are made; a dotted path
does not pass through a table that a header has defined. -/
def alter (dotted : Bool) (change : Mark → Entries → Option Entries) :
    List String → Mark → Entries → Option Entries
  | [], mark, es => change mark es
  | k :: ks, _, es =>
    match find? es k with
    | none => do
      let mark : Mark := ⟨true, dotted⟩
      return put es k (.table mark (← alter dotted change ks mark []))
    | some (.leaf _) => none
    | some (.tables items) => do
      let last ← alter dotted change ks ⟨false, false⟩ (items.getLastD [])
      return put es k (.tables (items.dropLast ++ [last]))
    | some (.table mark sub) => do
      if dotted && !mark.implicit then none
      return put es k (.table mark (← alter dotted change ks mark sub))

/-- A value put at the end of a dotted key, where nothing is yet. -/
def insert (path : List String) (v : Value Float) (mark : Mark) (es : Entries) : Option Entries :=
  match path.getLast? with
  | none => none
  | some key =>
    let way := path.dropLast
    alter true (fun mark es => do
      if mark.dotted == way.isEmpty then none
      if (find? es key).isSome then none
      return es ++ [(key, .leaf v)]) way mark es

/-- The table that a header names, defined; only tables passed through so far may be. -/
def openTable (path : List String) (root : Entries) : Option Entries :=
  match path.getLast? with
  | none => none
  | some key =>
    alter false (fun _ es =>
      match find? es key with
      | none => some (es ++ [(key, .table ⟨false, false⟩ [])])
      | some (.table mark sub) =>
        if mark.implicit && !mark.dotted then some (put es key (.table ⟨false, false⟩ sub))
        else none
      | some _ => none) path.dropLast ⟨false, false⟩ root

/-- A new table at the end of the list that a header names. -/
def openListed (path : List String) (root : Entries) : Option Entries :=
  match path.getLast? with
  | none => none
  | some key =>
    alter false (fun _ es =>
      match find? es key with
      | none => some (es ++ [(key, .tables [[]])])
      | some (.tables items) => some (put es key (.tables (items ++ [[]])))
      | some _ => none) path.dropLast ⟨false, false⟩ root

mutual

/-- The value of a finished node. -/
def toValue : Node → Value Float
  | .leaf v => v
  | .table _ es => .table (toEntries es)
  | .tables items => .list (toTables items)

/-- The values of finished entries. -/
def toEntries : List (String × Node) → List (String × Value Float)
  | [] => []
  | (k, n) :: rest => (k, toValue n) :: toEntries rest

/-- The values of a finished list of tables. -/
def toTables : List (List (String × Node)) → List (Value Float)
  | [] => []
  | es :: rest => .table (toEntries es) :: toTables rest

end

end Node

namespace Reader

mutual

/-- A value with room for `room` values inside each other. -/
def value : Nat → Nat → Reader (Value Float)
  | 0, _ => failure
  | fuel + 1, room => do
    match ← peek with
    | some '"' | some '\'' => return .text (← string)
    | some '[' =>
      if room = 0 then failure
      expect "["
      return .list (← items fuel (room - 1))
    | some '{' =>
      if room = 0 then failure
      expect "\x7b"
      skipBlanks
      if ← takes "\x7d" then return .table []
      return .table (Node.toEntries (← fields fuel (room - 1) []))
    | _ => plain

/-- The rest of a list, after its bracket or a comma. -/
def items : Nat → Nat → Reader (List (Value Float))
  | 0, _ => failure
  | fuel + 1, room => do
    skipLines ((← get).length + 1)
    if ← takes "]" then return []
    let v ← value fuel room
    skipLines ((← get).length + 1)
    if ← takes "," then return v :: (← items fuel room)
    expect "]"
    return [v]

/-- The rest of a table on one line, after its brace or a comma. -/
def fields : Nat → Nat → Node.Entries → Reader Node.Entries
  | 0, _, _ => failure
  | fuel + 1, room, es => do
    skipBlanks
    let path ← key
    skipBlanks
    expect "="
    skipBlanks
    let v ← value fuel room
    match Node.insert path v ⟨false, false⟩ es with
    | none => failure
    | some es =>
      skipBlanks
      if ← takes "," then fields fuel room es
      else
        expect "\x7d"
        return es

end

/-- The rest of a document, line by line, inside the table at `path`. -/
def lines : Nat → List String → Node.Entries → Reader Node.Entries
  | 0, _, _ => failure
  | fuel + 1, path, root => do
    skipBlanks
    match ← peek with
    | none => return root
    | some '#' | some '\n' | some '\r' =>
      restOfLine
      lines fuel path root
    | some '[' =>
      let listed ← takes "[["
      if !listed then expect "["
      skipBlanks
      let path ← key
      skipBlanks
      expect (if listed then "]]" else "]")
      restOfLine
      match (if listed then Node.openListed path root else Node.openTable path root) with
      | some root => lines fuel path root
      | none => failure
    | some _ =>
      let k ← key
      skipBlanks
      expect "="
      skipBlanks
      let v ← value ((← get).length + 1) maxDepth
      restOfLine
      match Node.alter false (Node.insert k v) path ⟨false, false⟩ root with
      | some root => lines fuel path root
      | none => failure

end Reader

/-- The tree of a document, if the text is one. -/
def parse? (text : String) : Option (Value Float) :=
  let cs := match text.toList with
    | '\ufeff' :: cs => cs
    | cs => cs
  ((Reader.lines (cs.length + 1) [] []).run cs).map fun (root, _) => .table (Node.toEntries root)

end Document

end PoseFilter
