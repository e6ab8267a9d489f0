import DynamicSql.Decimal.Binary

/-!
Reading numbers from text. An integer literal is an optional sign and digits; a decimal literal
has a point and an exponent besides, and the words for the values that are not finite count too.
-/

namespace DynamicSql.Decimal

def digitsValue (ds : List Char) : Nat :=
  ds.foldl (fun n c => 10 * n + (c.toNat - '0'.toNat)) 0

/-- At least one digit and nothing else. -/
def readNat? (cs : List Char) : Option Nat :=
  if cs ≠ [] ∧ cs.all Char.isDigit then some (digitsValue cs) else none

/-- A sign, if there is one, and the rest; a minus reads as `true`. -/
def splitSign : List Char → Bool × List Char
  | '-' :: cs => (true, cs)
  | '+' :: cs => (false, cs)
  | cs => (false, cs)

def readInt? (cs : List Char) : Option Int :=
  let (negative, ds) := splitSign cs
  (readNat? ds).map fun n : Nat => if negative then -(n : Int) else n

/-- A natural number below `bound`, optionally with a plus. -/
def readBelow? (bound : Nat) (cs : List Char) : Option Nat :=
  let ds := match cs with
    | '+' :: ds => ds
    | _ => cs
  (readNat? ds).filter (· < bound)

/-- A magnitude `digits * 10 ^ exponent` as it was written. -/
structure Magnitude where
  digits : List Char
  exponent : Int

/-- The power of ten that follows the digits. -/
def readExponent? : List Char → Option Int
  | [] => some 0
  | c :: cs => if c = 'e' ∨ c = 'E' then readInt? cs else none

def readMagnitude? (cs : List Char) : Option Magnitude :=
  let whole := cs.takeWhile Char.isDigit
  let rest := cs.dropWhile Char.isDigit
  let (fraction, rest) := match rest with
    | '.' :: r => (r.takeWhile Char.isDigit, r.dropWhile Char.isDigit)
    | _ => ([], rest)
  if whole ++ fraction = [] then none
  else (readExponent? rest).map fun e => ⟨whole ++ fraction, e - fraction.length⟩

/-- Rounded to the format. Far outside of its range the value is not computed: it is infinite
or zero. -/
def Magnitude.toFloat (f : Format) (negative : Bool) (m : Magnitude) : Float :=
  let ds := m.digits.dropWhile (· == '0')
  let top := ds.length + m.exponent
  if ds = [] ∨ top < -400 then (Shape.finite negative 0 (-1074)).toFloat
  else if 400 < top then (Shape.infinite negative).toFloat
  else f.nearest negative (digitsValue ds * Nat.pow 10 m.exponent.toNat)
    (Nat.pow 10 (-m.exponent).toNat)

/-- The words are compared without regard to ASCII case. -/
def readWord? (negative : Bool) (cs : List Char) : Option Float :=
  let word := cs.map Char.toLower
  if word = ['n', 'a', 'n'] then some Shape.nan.toFloat
  else if word = ['i', 'n', 'f'] ∨ word = ['i', 'n', 'f', 'i', 'n', 'i', 't', 'y'] then
    some (Shape.infinite negative).toFloat
  else none

def readFloat? (f : Format) (cs : List Char) : Option Float :=
  let (negative, rest) := splitSign cs
  match readMagnitude? rest with
  | some m => some (m.toFloat f negative)
  | none => readWord? negative rest

end DynamicSql.Decimal
