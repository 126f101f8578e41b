import PoseFilter.Decimal.Shortest

/-!
# Doubles as text

Three texts of the same shortest digits: `plain` in messages, `general` in the fields of log lines,
and `document` in scenario documents.  They differ in whether a whole number keeps `.0`, in whether
very large and very small numbers get an exponent, and in the word for what is not a number.
`fixed` is another thing: the double rounded to a number of places.
-/

namespace PoseFilter

/-- How a number is laid out. -/
structure Layout where
  /-- A whole number ends in `.0`. -/
  pointZero : Bool
  /-- The leading digit's powers of ten, from first to last, that are written without an exponent;
  none stands for all. -/
  positional : Option (Int × Int)
  /-- The word for an undefined number. -/
  undefined : String

namespace Layout

/-- Numbers inside messages: never an exponent, no `.0`. -/
def plain : Layout := ⟨false, none, "NaN"⟩

/-- Numbers as fields of a log line: `.0` on whole numbers, an exponent below `1e-4` and from
`1e16` on. -/
def general : Layout := ⟨true, some (-4, 15), "NaN"⟩

/-- Numbers in a scenario document: never an exponent, `.0` on whole numbers. -/
def document : Layout := ⟨true, none, "nan"⟩

/-- A string of zeros. -/
def zeros (n : Nat) : String := String.ofList (List.replicate n '0')

/-- `digits · 10^exponent` without an exponent. -/
def positionalText (pointZero : Bool) (digits : Nat) (exponent : Int) : String :=
  let s := toString digits
  let tail := if pointZero then ".0" else ""
  if 0 ≤ exponent then
    (if digits = 0 then s else s ++ zeros exponent.toNat) ++ tail
  else
    let places := (-exponent).toNat
    if places < s.length then
      String.ofList (s.toList.take (s.length - places)) ++ "." ++
        String.ofList (s.toList.drop (s.length - places))
    else "0." ++ zeros (places - s.length) ++ s

/-- `digits · 10^exponent` with one digit before the point and an exponent. -/
def scientificText (digits : Nat) (exponent : Int) : String :=
  let s := toString digits
  let e := exponent + s.length - 1
  let rest := String.ofList (s.toList.drop 1)
  let head := String.ofList (s.toList.take 1)
  (if rest = "" then head else head ++ "." ++ rest) ++ "e" ++ toString e

/-- The text of a decimal. -/
def decimal (f : Layout) (d : Decimal) : String :=
  let lead := d.exponent + (toString d.digits).length - 1
  let body :=
    match f.positional with
    | some (low, high) =>
      if d.digits = 0 ∨ low ≤ lead ∧ lead ≤ high then
        positionalText f.pointZero d.digits d.exponent
      else scientificText d.digits d.exponent
    | none => positionalText f.pointZero d.digits d.exponent
  if d.negative then "-" ++ body else body

/-- The text of a double. -/
def text (f : Layout) (x : Float) : String :=
  match Double.form x with
  | .undefined => f.undefined
  | .infinite negative => if negative then "-inf" else "inf"
  | .finite p => f.decimal (Double.shortest p)

/-- A double rounded to a number of places, a half to the even digit. -/
def fixed (places : Nat) (x : Float) : String :=
  match Double.form x with
  | .undefined => "NaN"
  | .infinite negative => if negative then "-inf" else "inf"
  | .finite p =>
    let s := toString (Double.roundedTo (-places) p)
    let s := zeros (places + 1 - s.length) ++ s
    let head := String.ofList (s.toList.take (s.length - places))
    let tail := String.ofList (s.toList.drop (s.length - places))
    (if p.negative then "-" else "") ++ (if places = 0 then head else head ++ "." ++ tail)

end Layout

end PoseFilter
