import PoseFilter.Document.Lexer
import PoseFilter.Decimal.Layout

/-!
# Writing a document

A tree of tables as a TOML text.  Every table is a section under a header with the path to it: its
plain values first, then the tables inside it.  Sections are divided by a blank line.  Numbers are
written with the fewest digits, a list has one line per element, and a text is put in the plainest
quotes that can hold it.
-/

namespace PoseFilter

namespace Document

/-! ### Quotes -/

/-- How a text is quoted. -/
inductive Quoting
  /-- Between double quotes, with escapes. -/
  | basic
  /-- Between single quotes, with nothing escaped. -/
  | literal
  /-- Between three double quotes, with escapes. -/
  | longBasic
  /-- Between three single quotes, with nothing escaped. -/
  | longLiteral
  deriving DecidableEq

/-- The longest run of a character in a text, `run` of them just before it and `longest` of them
further back. -/
def longestRun (c : Char) (run longest : Nat) : List Char → Nat
  | [] => max run longest
  | d :: rest =>
    if d = c then longestRun c (run + 1) longest rest
    else longestRun c 0 (max run longest) rest

/-- The quotes for a text: the first of the four kinds that holds it without an escape, else the
double quotes, three of them if the text has several lines. -/
def quoting (s : String) : Quoting :=
  let cs := s.toList
  let lines := cs.contains '\n'
  let printable := cs.all fun c => c == '\n' || Reader.isPlain c
  let slashes := cs.contains '\\'
  let doubles := longestRun '"' 0 0 cs
  let singles := longestRun '\'' 0 0 cs
  if printable && !slashes && !lines && doubles = 0 then .basic
  else if printable && !lines && singles = 0 then .literal
  else if printable && !slashes && doubles ≤ 2 then .longBasic
  else if printable && singles ≤ 2 then .longLiteral
  else if lines then .longBasic
  else .basic

/-- Four hexadecimal digits in capitals. -/
def hex4 (n : Nat) : String :=
  String.ofList ([n / 4096, n / 256 % 16, n / 16 % 16, n % 16].map fun d =>
    (Nat.digitChar d).toUpper)

/-- A character other than a quote between double quotes. -/
def escaped (long : Bool) (c : Char) : String :=
  match c with
  | '\t' => "\\t"
  | '\n' => if long then "\n" else "\\n"
  | '\r' => "\\r"
  | '\\' => "\\\\"
  | c =>
    if c.toNat = 8 then "\\b"
    else if c.toNat = 12 then "\\f"
    else if c.toNat < 0x20 ∨ c.toNat = 0x7f then "\\u" ++ hex4 c.toNat
    else c.toString

/-- A text between double quotes, after `run` quotes that stand as they are: between three quotes
two may stand next to each other, otherwise none. -/
def escapedText (long : Bool) : Nat → List Char → String
  | _, [] => ""
  | run, c :: rest =>
    if c = '"' then
      if long ∧ run < 2 then "\"" ++ escapedText long (run + 1) rest
      else "\\\"" ++ escapedText long 0 rest
    else escaped long c ++ escapedText long 0 rest

/-- A text in quotes.  A text of several lines begins on the line after its quotes. -/
def quoted (s : String) : String :=
  let first := if s.toList.contains '\n' then "\n" else ""
  match quoting s with
  | .basic => "\"" ++ escapedText false 0 s.toList ++ "\""
  | .literal => "'" ++ s ++ "'"
  | .longBasic => "\"\"\"" ++ first ++ escapedText true 0 s.toList ++ "\"\"\""
  | .longLiteral => "'''" ++ first ++ s ++ "'''"

/-! ### Values -/

/-- A plain value on one line. -/
def plainText : Value Float → String
  | .text s => quoted s
  | .integer n => toString n
  | .number x => Layout.document.text x
  | .flag b => if b then "true" else "false"
  | _ => ""

/-- An element of a list; zero has no sign there. -/
def elementText : Value Float → String
  | .number x => Layout.document.text (if x == 0 then 0 else x)
  | v => plainText v

/-- Whether a value is a table. -/
def isTable : Value Float → Bool
  | .table _ => true
  | _ => false

/-- The lines of a key with its value, none if the value has a section of its own or says
nothing. -/
def entryLines (key : String) : Value Float → List String
  | .table _ => []
  | .absent => []
  | .list [] => [key ++ " = []"]
  | .list [v] => if isTable v then [] else [key ++ " = [" ++ elementText v ++ "]"]
  | .list items =>
    if items.all isTable then []
    else [key ++ " = ["] ++ items.map (fun v => "    " ++ elementText v ++ ",") ++ ["]"]
  | v => [key ++ " = " ++ plainText v]

/-- The lines of the plain values of a table. -/
def plainLines (es : Value.Entries Float) : List String := es.flatMap fun e => entryLines e.1 e.2

/-- The path to a key of a table. -/
def pathTo (table key : String) : String := if table = "" then key else table ++ "." ++ key

mutual

/-- The sections of a value, each a list of lines. -/
def sections (path : String) : Value Float → List (List String)
  | .table es => (("[" ++ path ++ "]") :: plainLines es) :: entrySections path es
  | .list items => listedSections path items
  | _ => []

/-- The sections of the tables inside a table. -/
def entrySections (path : String) : List (String × Value Float) → List (List String)
  | [] => []
  | (key, v) :: rest => sections (pathTo path key) v ++ entrySections path rest

/-- The sections of a list of tables. -/
def listedSections (path : String) : List (Value Float) → List (List String)
  | [] => []
  | .table es :: rest =>
    (("[[" ++ path ++ "]]") :: plainLines es) :: entrySections path es ++ listedSections path rest
  | _ :: rest => listedSections path rest

end

/-- The lines of a document. -/
def print (es : Value.Entries Float) : List String :=
  let plain := plainLines es
  let blocks := (if plain.isEmpty then [] else [plain]) ++ entrySections "" es
  List.intercalate [""] blocks

end Document

end PoseFilter
