import DynamicSql.Decimal.Binary

/-!
The shortest decimal text of a float: the fewest digits that read back as the same number, of
those the nearest, and of two equally near ones the larger. It is always written positionally.
-/

namespace DynamicSql.Decimal

/-- The number `digits * 10 ^ exponent`. -/
structure Scientific where
  digits : Nat
  exponent : Int

/-- The numbers that round to `m * 2 ^ q`, in units of `2 ^ (q - 2)`. Below a power of two the
neighbour is half as far away. -/
structure Interval where
  low : Nat
  value : Nat
  high : Nat
  closed : Bool

def Interval.around (m : Nat) (q : Int) : Interval where
  low := if m = Nat.pow 2 52 ∧ -1074 < q then 4 * m - 1 else 4 * m - 2
  value := 4 * m
  high := 4 * m + 2
  closed := m % 2 == 0

/-- The point of the grid `10 ^ k` that stands for the interval's value, if the interval holds
one of the two points next to the value. -/
def Interval.point? (i : Interval) (q k : Int) : Option Nat :=
  let unit := Nat.pow 2 (q - 2).toNat * Nat.pow 10 (-k).toNat
  let step := Nat.pow 2 (2 - q).toNat * Nat.pow 10 k.toNat
  let below := i.value * unit / step
  let above := below + 1
  let isIn (d : Nat) : Bool :=
    if i.closed then i.low * unit ≤ d * step && d * step ≤ i.high * unit
    else i.low * unit < d * step && d * step < i.high * unit
  if isIn above && (!isIn below || (below + above) * step ≤ 2 * (i.value * unit)) then some above
  else if isIn below then some below
  else none

/-- Tries the grids from `10 ^ k` downwards; the last one is taken without a test. -/
def Interval.coarsest (i : Interval) (q : Int) : Nat → Int → Scientific
  | 0, k => ⟨(i.point? q k).getD 0, k⟩
  | n + 1, k =>
    match i.point? q k with
    | some d => ⟨d, k⟩
    | none => i.coarsest q n (k - 1)

/-- The shortest decimal of `m * 2 ^ q`. The search starts at a power of ten above the value
and goes down to at least seventeen digits, which always read back. -/
def shortest (m : Nat) (q : Int) : Scientific :=
  let bits : Int := m.log2 + 1 + q
  (Interval.around m q).coarsest q 20 (bits * 30103 / 100000 + 1)

/-- Digits without exponent: zeros fill the gap between the digits and the point. -/
def Scientific.positional (d : Scientific) : List Char :=
  let ds := Nat.toDigits 10 d.digits
  if 0 ≤ d.exponent then ds ++ List.replicate d.exponent.toNat '0'
  else
    let places := (-d.exponent).toNat
    let padded := List.replicate (places + 1 - ds.length) '0' ++ ds
    let whole := padded.length - places
    padded.take whole ++ '.' :: padded.drop whole

def signed (negative : Bool) (cs : List Char) : List Char :=
  if negative then '-' :: cs else cs

/-- The text of a float. -/
def floatText (x : Float) : String :=
  match Shape.ofFloat x with
  | .nan => "NaN"
  | .infinite negative => String.ofList (signed negative ['i', 'n', 'f'])
  | .finite negative 0 _ => String.ofList (signed negative ['0'])
  | .finite negative m q => String.ofList (signed negative (shortest m q).positional)

end DynamicSql.Decimal
