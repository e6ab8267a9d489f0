/-!
Binary floating point numbers as exact numbers: a finite float is `m * 2 ^ q`. Rounding takes a
positive quotient to the nearest number of a format, of two equally near ones to the even `m`.
-/

namespace DynamicSql.Decimal

/-- What the bits of a float say. -/
inductive Shape where
  | nan
  | infinite (negative : Bool)
  | finite (negative : Bool) (m : Nat) (q : Int)
  deriving DecidableEq

def Shape.ofFloat (x : Float) : Shape :=
  let bits : Nat := x.toBits.toNat
  let negative := bits / Nat.pow 2 63 % 2 == 1
  let biased : Nat := bits / Nat.pow 2 52 % Nat.pow 2 11
  let fraction : Nat := bits % Nat.pow 2 52
  if biased = 2047 then
    if fraction = 0 then .infinite negative else .nan
  else if biased = 0 then .finite negative fraction (-1074)
  else .finite negative (Nat.pow 2 52 + fraction) (biased - 1075)

/-- A finite shape needs `m < 2 ^ 53`, and `q = -1074` wherever `m < 2 ^ 52`. -/
def Shape.toFloat : Shape → Float
  | .nan => Float.ofBits 0x7FF8000000000000
  | .infinite negative => ofParts negative (2047 * Nat.pow 2 52)
  | .finite negative m q =>
    let normal := Nat.pow 2 52
    ofParts negative (if m < normal then m else (q + 1075).toNat * normal + (m - normal))
where
  ofParts (negative : Bool) (magnitude : Nat) : Float :=
    Float.ofBits (UInt64.ofNat (magnitude + if negative then Nat.pow 2 63 else 0))

/-- The numbers `m * 2 ^ q` with `m < 2 ^ precision` and `minExponent ≤ q ≤ maxExponent`. -/
structure Format where
  precision : Nat
  minExponent : Int
  maxExponent : Int

def Format.double : Format := ⟨53, -1074, 971⟩

def Format.single : Format := ⟨24, -149, 104⟩

/-- The quotient `num / den` scaled by `2 ^ -q`, again as a quotient. -/
def scaled (num den : Nat) (q : Int) : Nat × Nat :=
  (num * Nat.pow 2 (-q).toNat, den * Nat.pow 2 q.toNat)

def roundHalfEven (num den : Nat) : Nat :=
  let low := num / den
  let twice := 2 * (num % den)
  if den < twice ∨ (twice = den ∧ low % 2 = 1) then low + 1 else low

/-- The nearest `m * 2 ^ q` to a positive quotient, with no bound on `q` from above. -/
def Format.round (f : Format) (num den : Nat) : Nat × Int :=
  let q₀ := max ((num.log2 : Int) - den.log2 - f.precision) f.minExponent
  let s := scaled num den q₀
  let q := if Nat.pow 2 f.precision ≤ s.1 / s.2 then q₀ + 1 else q₀
  let t := scaled num den q
  let m := roundHalfEven t.1 t.2
  if m = Nat.pow 2 f.precision then (Nat.pow 2 (f.precision - 1), q + 1) else (m, q)

/-- The nearest number of the format, widened to a double; infinite beyond the largest one. -/
def Format.nearest (f : Format) (negative : Bool) (num den : Nat) : Float :=
  if num = 0 then (Shape.finite negative 0 (-1074)).toFloat
  else
    let (m, q) := f.round num den
    if f.maxExponent < q then (Shape.infinite negative).toFloat
    else
      let s := scaled m 1 (-q)
      let (m, q) := Format.double.round s.1 s.2
      (Shape.finite negative m q).toFloat

end DynamicSql.Decimal
