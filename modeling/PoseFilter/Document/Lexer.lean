import PoseFilter.Decimal.Read
import PoseFilter.Document.Moment

/-!
# Words of a document

The smallest parts of a settings document in TOML: blanks, comments, keys, strings, numbers and
moments.  A reader takes its part off the front of the remaining characters or fails.
-/

namespace PoseFilter

namespace Document

/-- A reader of the front of a text. -/
abbrev Reader (β : Type) : Type := StateT (List Char) Option β

namespace Reader

/-- The next character without taking it. -/
def peek : Reader (Option Char) := do return (← get).head?

/-- Whether the text goes on with some characters; if so they are taken. -/
def takes (start : String) : Reader Bool := do
  let cs ← get
  if start.toList.isPrefixOf cs then
    set (cs.drop start.length)
    return true
  else return false

/-- The given characters, which must come next. -/
def expect (start : String) : Reader Unit := do
  if !(← takes start) then failure

/-- The longest run of characters of a class. -/
def takeWhile (p : Char → Bool) : Reader (List Char) := do
  let (taken, rest) := (← get).span p
  set rest
  return taken

/-- Blanks and tabs. -/
def skipBlanks : Reader Unit := do
  let _ ← takeWhile fun c => c == ' ' || c == '\t'

/-- Characters that may stand in a comment or between literal quotes. -/
def isPlain (c : Char) : Bool := c == '\t' || (0x20 ≤ c.toNat && c.toNat ≠ 0x7f)

/-- The end of a line or of the text. -/
def lineEnd : Reader Unit := do
  if (← get).isEmpty then return
  if ← takes "\n" then return
  expect "\r\n"

/-- A comment, up to the end of its line. -/
def skipComment : Reader Unit := do
  if (← peek) = some '#' then
    let _ ← takeWhile isPlain

/-- What may follow on a line after all that counts. -/
def restOfLine : Reader Unit := do
  skipBlanks
  skipComment
  lineEnd

/-- Blanks, comments and line ends, in at most `fuel` lines. -/
def skipLines : Nat → Reader Unit
  | 0 => return
  | fuel + 1 => do
    skipBlanks
    skipComment
    if (← takes "\n") then skipLines fuel
    else if (← takes "\r\n") then skipLines fuel

/-! ### Strings -/

/-- The character with the given number of hexadecimal digits as its code. -/
def codePoint (digits : Nat) : Reader Char := do
  let cs ← get
  let ds := cs.take digits
  if ds.length = digits && ds.all fun c => c.isDigit || ('a' ≤ c && c ≤ 'f') || ('A' ≤ c && c ≤ 'F')
  then
    let n := ds.foldl (fun n c =>
      16 * n + (if c.isDigit then c.toNat - 48 else c.toLower.toNat - 87)) 0
    if n.isValidChar then
      set (cs.drop digits)
      return Char.ofNat n
    else failure
  else failure

/-- What follows a backslash. -/
def escape : Reader Char := do
  match ← get with
  | c :: rest =>
    set rest
    match c with
    | 'b' => return Char.ofNat 8
    | 't' => return '\t'
    | 'n' => return '\n'
    | 'f' => return Char.ofNat 12
    | 'r' => return '\r'
    | '"' => return '"'
    | '\\' => return '\\'
    | 'u' => codePoint 4
    | 'U' => codePoint 8
    | _ => failure
  | [] => failure

/-- The rest of a string in double quotes, after its opening quote. -/
def basicString : Nat → List Char → Reader String
  | 0, _ => failure
  | fuel + 1, acc => do
    match ← get with
    | '"' :: rest =>
      set rest
      return String.ofList acc.reverse
    | '\\' :: rest =>
      set rest
      basicString fuel ((← escape) :: acc)
    | c :: rest =>
      if isPlain c then
        set rest
        basicString fuel (c :: acc)
      else failure
    | [] => failure

/-- The rest of a string in single quotes, after its opening quote. -/
def literalString : Reader String := do
  let body ← takeWhile fun c => isPlain c && c != '\''
  expect "'"
  return String.ofList body

/-- Blanks and line ends after a backslash at the end of a line. -/
def skipSpace : Reader Unit := do
  let cs ← get
  let rest := cs.dropWhile fun c => c == ' ' || c == '\t' || c == '\n' || c == '\r'
  let taken := cs.take (cs.length - rest.length)
  if loneReturn taken then failure
  set rest
where
  /-- A carriage return that no line feed follows. -/
  loneReturn : List Char → Bool
    | [] => false
    | '\r' :: '\n' :: rest => loneReturn rest
    | '\r' :: _ => true
    | _ :: rest => loneReturn rest

/-- How many quotes of a kind come next. -/
def quoteRun (quote : Char) : Reader Nat := do
  return ((← get).takeWhile (· == quote)).length

/-- The rest of a string in three quotes, after its opening quotes.  Up to two quotes may stand
right before the closing ones.  Escapes count only between double quotes. -/
def longString (quote : Char) : Nat → List Char → Reader String
  | 0, _ => failure
  | fuel + 1, acc => do
    match ← get with
    | '\r' :: '\n' :: rest =>
      set rest
      longString quote fuel ('\n' :: acc)
    | c :: rest =>
      if c = quote then
        let n ← quoteRun quote
        if n < 3 then
          set rest
          longString quote fuel (c :: acc)
        else if 5 < n then failure
        else
          set ((← get).drop n)
          return String.ofList (List.replicate (n - 3) quote ++ acc).reverse
      else if c = '\\' ∧ quote = '"' then
        set rest
        match rest.dropWhile fun c => c == ' ' || c == '\t' with
        | '\n' :: _ | '\r' :: '\n' :: _ =>
          skipSpace
          longString quote fuel acc
        | _ => longString quote fuel ((← escape) :: acc)
      else if isPlain c ∨ c = '\n' then
        set rest
        longString quote fuel (c :: acc)
      else failure
    | [] => failure

/-- The line end right after opening quotes, which does not count. -/
def skipFirstLineEnd : Reader Unit := do
  if !(← takes "\n") then
    let _ ← takes "\r\n"

/-- A string in any of the four kinds of quotes. -/
def string : Reader String := do
  let fuel := (← get).length + 1
  if ← takes "\"\"\"" then
    skipFirstLineEnd
    longString '"' fuel []
  else if ← takes "'''" then
    skipFirstLineEnd
    longString '\'' fuel []
  else if ← takes "\"" then basicString fuel []
  else
    expect "'"
    literalString

/-! ### Keys -/

/-- Characters of a key without quotes. -/
def isBare (c : Char) : Bool := c.isAlphanum || c == '_' || c == '-'

/-- A key without dots. -/
def simpleKey : Reader String := do
  let fuel := (← get).length + 1
  if ← takes "\"" then basicString fuel []
  else if ← takes "'" then literalString
  else
    let cs ← takeWhile isBare
    if cs.isEmpty then failure
    return String.ofList cs

/-- The keys after the first of a dotted key. -/
def moreKeys : Nat → Reader (List String)
  | 0 => failure
  | fuel + 1 => do
    skipBlanks
    if ← takes "." then
      skipBlanks
      let k ← simpleKey
      return k :: (← moreKeys fuel)
    else return []

/-- How deep values may be nested, and how many parts a dotted key may have. -/
def maxDepth : Nat := 79

/-- A key, with the tables it goes through. -/
def key : Reader (List String) := do
  let k ← simpleKey
  let ks ← moreKeys ((← get).length + 1)
  if maxDepth ≤ ks.length then failure
  return k :: ks

end Reader

/-! ### Numbers -/

/-- Digits of a base with single underscores between them, without the underscores. -/
def groupedDigits? (isDigit : Char → Bool) : List Char → Option (List Char)
  | [] => none
  | [c] => if isDigit c then some [c] else none
  | c :: '_' :: rest => if isDigit c then (groupedDigits? isDigit rest).map (c :: ·) else none
  | c :: rest => if isDigit c then (groupedDigits? isDigit rest).map (c :: ·) else none

/-- The digits of a decimal integer: no zero in front of others. -/
def wholeDigits? (cs : List Char) : Option (List Char) := do
  let ds ← groupedDigits? Char.isDigit cs
  match ds with
  | '0' :: _ :: _ => none
  | _ => some ds

/-- An integer that fits 64 bits with a sign. -/
def integer? (n : Int) : Option (Value Float) :=
  if -(Value.integerBound : Int) ≤ n ∧ n < Value.integerBound then some (.integer n) else none

/-- An integer in base 2, 8 or 16. -/
def basedInteger? (base : Nat) (cs : List Char) : Option (Value Float) := do
  let digit (c : Char) : Nat :=
    if c.isDigit then c.toNat - 48
    else if 'a' ≤ c.toLower ∧ c.toLower ≤ 'f' then c.toLower.toNat - 87
    else 16
  let ds ← groupedDigits? (fun c => digit c < base) cs
  integer? (ds.foldl (fun n c => base * n + digit c) 0 : Nat)

/-- A number with a fraction or an exponent.  One that overflows upwards is refused. -/
def fractional? (negative : Bool) (cs : List Char) : Option (Value Float) := do
  let (whole, rest) := cs.span fun c => c.isDigit || c == '_'
  let whole ← wholeDigits? whole
  let (fraction, rest) ←
    match rest with
    | '.' :: cs =>
      let (f, rest) := cs.span fun c => c.isDigit || c == '_'
      (groupedDigits? Char.isDigit f).map fun f => (f, rest)
    | cs => some ([], cs)
  let exponent ←
    match rest with
    | [] => some 0
    | c :: cs =>
      if c = 'e' ∨ c = 'E' then do
        let (minus, cs) := Decimal.signOf cs
        let ds ← groupedDigits? Char.isDigit cs
        pure (if minus then -(Decimal.natOf ds : Int) else Decimal.natOf ds)
      else none
  let x := Decimal.toFloat ⟨negative, Decimal.natOf (whole ++ fraction), exponent - fraction.length⟩
  if x == 1.0 / 0.0 then none else some (.number x)

/-- The plain value that a word stands for: a flag or a number. -/
def word? (cs : List Char) : Option (Value Float) :=
  match cs with
  | '0' :: 'x' :: ds => basedInteger? 16 ds
  | '0' :: 'o' :: ds => basedInteger? 8 ds
  | '0' :: 'b' :: ds => basedInteger? 2 ds
  | _ =>
    let (negative, body) := Decimal.signOf cs
    match String.ofList cs, String.ofList body with
    | "true", _ => some (.flag true)
    | "false", _ => some (.flag false)
    | _, "inf" => some (.number (if negative then -(1.0 / 0.0) else 1.0 / 0.0))
    | _, "nan" => some (.number (0.0 / 0.0))
    | _, _ =>
      match wholeDigits? body with
      | some ds => integer? (if negative then -(Decimal.natOf ds : Int) else Decimal.natOf ds)
      | none => fractional? negative body

/-- A flag or a number. -/
def Reader.word : Reader (Value Float) := do
  let cs ← Reader.takeWhile fun c =>
    c.isAlphanum || c == '_' || c == '+' || c == '-' || c == '.'
  match word? cs with
  | some v => return v
  | none => failure

/-- A moment, a flag or a number. -/
def Reader.plain : Reader (Value Float) := do
  let cs ← get
  match Moment.moment? cs with
  | some rest =>
    set rest
    return Moment.toValue (String.ofList (cs.take (cs.length - rest.length)))
  | none => Reader.word

end Document

end PoseFilter
