import DynamicSql.Decimal.Literal
import DynamicSql.Decimal.Shortest
import DynamicSql.Text.Blank

/-!
Numbers as parameters hold them. Integers keep their full width, so they are compared and
written without loss; a float stands for everything else.
-/

namespace DynamicSql

inductive Number where
  | int (n : Int64)
  | uint (n : UInt64)
  | float (x : Float)
  deriving Inhabited

namespace Number

/-- A negative integer is rounded as its magnitude, since rounding to nearest is the same on both
sides of zero. -/
def toFloat : Number → Float
  | .int n => if n < 0 then -(-n).toUInt64.toFloat else n.toUInt64.toFloat
  | .uint n => n.toFloat
  | .float x => x

def isFinite : Number → Bool
  | .float x => x.isFinite
  | _ => true

/-- The value of an integer of either kind. -/
def toInt? : Number → Option Int
  | .int n => some n.toInt
  | .uint n => some n.toNat
  | .float _ => none

/-- The signed kind wherever it fits, else the unsigned one. -/
def ofInt? (n : Int) : Option Number :=
  if Int64.minValue.toInt ≤ n ∧ n ≤ Int64.maxValue.toInt then some (.int (Int64.ofInt n))
  else if 0 ≤ n ∧ n < UInt64.size then some (.uint (UInt64.ofNat n.toNat))
  else none

/-- An integer of each kind are compared as unsigned ones, if the signed one is not negative. With a
float on either side both become floats. -/
def equals : Number → Number → Bool
  | .int a, .int b => a == b
  | .uint a, .uint b => a == b
  | .int a, .uint b | .uint b, .int a => decide (0 ≤ a) && a.toUInt64 == b
  | a, b => a.toFloat == b.toFloat

/-- A NaN is in no order with anything. -/
def compareFloats? (x y : Float) : Option Ordering :=
  if x < y then some .lt
  else if x == y then some .eq
  else if y < x then some .gt
  else none

def compare? : Number → Number → Option Ordering
  | .int a, .int b => some (compare a b)
  | .uint a, .uint b => some (compare a b)
  | .int a, .uint b => some (if a < 0 then .lt else compare a.toUInt64 b)
  | .uint a, .int b => some (if b < 0 then .gt else compare a b.toUInt64)
  | a, b => compareFloats? a.toFloat b.toFloat

/-- Same kind and same value; a NaN differs from itself. -/
def same : Number → Number → Bool
  | .int m, .int n => m == n
  | .uint m, .uint n => m == n
  | .float x, .float y => x == y
  | _, _ => false

def text : Number → String
  | .int n => toString n.toInt
  | .uint n => toString n.toNat
  | .float x => Decimal.floatText x

def readSigned? (cs : List Char) : Option Int64 :=
  (Decimal.readInt? cs).bind fun n =>
    if Int64.minValue.toInt ≤ n ∧ n ≤ Int64.maxValue.toInt then some (Int64.ofInt n) else none

/-- Not with a minus, even in front of zero. -/
def readUnsigned? (cs : List Char) : Option UInt64 :=
  (Decimal.readBelow? UInt64.size cs).map UInt64.ofNat

/-- Three readers in turn: an integer of either kind, or a float. Blanks around the text do not
count. -/
def ofChars? (cs : List Char) : Option Number :=
  match readSigned? cs with
  | some n => some (.int n)
  | none =>
    match readUnsigned? cs with
    | some n => some (.uint n)
    | none => (Decimal.readFloat? .double cs).map .float

def ofText? (s : String) : Option Number :=
  ofChars? (Text.trimChars s.toList)

end Number

end DynamicSql
