import DynamicSql.Parameter.Number

/-!
Signed and unsigned integers of 64 bits beside each other. A guard for the sign stands in front of
every cast, so a cast keeps the integer, and two integers of any kinds are compared as the integers
that they are (`Number.equals_eq`, `Number.compare?_eq`).
-/

namespace DynamicSql

theorem toInt_neg_iff {n : Int64} : n < 0 ↔ n.toInt < 0 :=
  Int64.lt_iff_toInt_lt

/-- A cast of what is not negative keeps the integer. -/
theorem toNat_toUInt64 {n : Int64} (h : ¬n < 0) : (n.toUInt64.toNat : Int) = n.toInt := by
  rw [Int64.toNat_toUInt64_of_le (Int64.not_lt.1 h), ← Int64.toNat_toInt]
  exact Int.toNat_of_nonneg (Int.not_lt.1 (mt toInt_neg_iff.2 h))

theorem compare_toInt (a b : Int64) : compare a b = compare a.toInt b.toInt := by
  simp only [compare, compareOfLessAndEq, Int64.lt_iff_toInt_lt, ← Int64.toInt_inj]

theorem compare_toNat (a b : UInt64) : compare a b = compare (a.toNat : Int) b.toNat := by
  simp only [compare, compareOfLessAndEq, UInt64.lt_iff_toNat_lt, ← UInt64.toNat_inj,
    Int.ofNat_lt, Int.ofNat_inj]

namespace Number

theorem equals_cast (a : Int64) (b : UInt64) :
    (decide (0 ≤ a) && a.toUInt64 == b) = (a.toInt == (b.toNat : Int)) := by
  by_cases h : a < 0
  · have hne : a.toInt ≠ b.toNat := by
      have := toInt_neg_iff.1 h
      omega
    rw [decide_eq_false (Int64.not_le.2 h), Bool.false_and, beq_eq_false_iff_ne.2 hne]
  · rw [decide_eq_true (Int64.not_lt.1 h), Bool.true_and, ← toNat_toUInt64 h, Bool.eq_iff_iff,
      beq_iff_eq, beq_iff_eq, Int.ofNat_inj, UInt64.toNat_inj]

theorem compare_cast (a : Int64) (b : UInt64) :
    (if a < 0 then .lt else compare a.toUInt64 b) = compare a.toInt (b.toNat : Int) := by
  split
  · next h =>
    have := toInt_neg_iff.1 h
    exact (Int.compare_eq_lt.2 (by omega)).symm
  · next h => rw [compare_toNat, toNat_toUInt64 h]

theorem compare_cast_swap (a : UInt64) (b : Int64) :
    (if b < 0 then .gt else compare a b.toUInt64) = compare (a.toNat : Int) b.toInt := by
  split
  · next h =>
    have := toInt_neg_iff.1 h
    exact (Int.compare_eq_gt.2 (by omega)).symm
  · next h => rw [compare_toNat, toNat_toUInt64 h]

/-- Equality of two integers is that of the integers, and with a float that of floats. -/
theorem equals_eq (m n : Number) :
    m.equals n =
      match m.toInt?, n.toInt? with
      | some a, some b => a == b
      | _, _ => m.toFloat == n.toFloat := by
  cases m with
  | float x => cases n <;> rfl
  | int a =>
    cases n with
    | float y => rfl
    | int b =>
      change (a == b) = (a.toInt == b.toInt)
      rw [Bool.eq_iff_iff, beq_iff_eq, beq_iff_eq, Int64.toInt_inj]
    | uint b => exact equals_cast a b
  | uint a =>
    cases n with
    | float y => rfl
    | int b => exact (equals_cast b a).trans BEq.comm
    | uint b =>
      change (a == b) = ((a.toNat : Int) == b.toNat)
      rw [Bool.eq_iff_iff, beq_iff_eq, beq_iff_eq, Int.ofNat_inj, UInt64.toNat_inj]

/-- Two integers are in the order of the integers, and with a float in that of floats. -/
theorem compare?_eq (m n : Number) :
    m.compare? n =
      match m.toInt?, n.toInt? with
      | some a, some b => some (compare a b)
      | _, _ => compareFloats? m.toFloat n.toFloat := by
  cases m with
  | float x => cases n <;> rfl
  | int a =>
    cases n with
    | float y => rfl
    | int b => exact congrArg some (compare_toInt a b)
    | uint b => exact congrArg some (compare_cast a b)
  | uint a =>
    cases n with
    | float y => rfl
    | int b => exact congrArg some (compare_cast_swap a b)
    | uint b => exact congrArg some (compare_toNat a b)

variable {m n : Number} {a b : Int}

theorem equals_of_toInt? (hm : m.toInt? = some a) (hn : n.toInt? = some b) :
    m.equals n = (a == b) := by
  rw [equals_eq, hm, hn]

theorem compare?_of_toInt? (hm : m.toInt? = some a) (hn : n.toInt? = some b) :
    m.compare? n = some (compare a b) := by
  rw [compare?_eq, hm, hn]

end Number

end DynamicSql
