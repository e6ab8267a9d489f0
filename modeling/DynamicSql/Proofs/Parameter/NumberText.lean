import DynamicSql.Parameter.Number

/-!
The texts of finite numbers: a minus where the number is negative, and then digits with at most
points between them.
-/

namespace DynamicSql

namespace Decimal

def plainChars : List Char :=
  ['0', '1', '2', '3', '4', '5', '6', '7', '8', '9', '.']

/-- Digits and points, and not none of them. -/
def IsPlain (cs : List Char) : Prop :=
  cs ≠ [] ∧ ∀ c ∈ cs, c ∈ plainChars

theorem mem_plainChars_of_isDigit {c : Char} (h : c.isDigit = true) : c ∈ plainChars := by
  have hcode : ∀ n < 58, 48 ≤ n → Char.ofNat n ∈ plainChars := by decide
  have hbounds : 48 ≤ c.toNat ∧ c.toNat ≤ 57 := Char.isDigit_iff_toNat.1 h
  rw [← Char.ofNat_toNat c]
  exact hcode c.toNat (by omega) hbounds.1

theorem isPlain_toDigits (n : Nat) : IsPlain (Nat.toDigits 10 n) := by
  refine ⟨Nat.toDigits_ne_nil, ?_⟩
  intro c hc
  exact mem_plainChars_of_isDigit (Nat.isDigit_of_mem_toDigits (by decide) (by decide) hc)

theorem IsPlain.zeros_append {cs : List Char} (h : IsPlain cs) (n : Nat) :
    IsPlain (List.replicate n '0' ++ cs) := by
  refine ⟨by simp [h.1], ?_⟩
  intro c hc
  rw [List.mem_append] at hc
  cases hc with
  | inl hc =>
    rw [List.eq_of_mem_replicate hc]
    decide
  | inr hc => exact h.2 c hc

theorem IsPlain.append_zeros {cs : List Char} (h : IsPlain cs) (n : Nat) :
    IsPlain (cs ++ List.replicate n '0') := by
  refine ⟨by simp [h.1], ?_⟩
  intro c hc
  rw [List.mem_append] at hc
  cases hc with
  | inl hc => exact h.2 c hc
  | inr hc =>
    rw [List.eq_of_mem_replicate hc]
    decide

theorem IsPlain.insert_point {cs : List Char} (h : IsPlain cs) (n : Nat) :
    IsPlain (cs.take n ++ '.' :: cs.drop n) := by
  refine ⟨by simp, ?_⟩
  intro c hc
  rw [List.mem_append, List.mem_cons] at hc
  rcases hc with hc | rfl | hc
  · exact h.2 c (List.mem_of_mem_take hc)
  · decide
  · exact h.2 c (List.mem_of_mem_drop hc)

theorem Scientific.isPlain_positional (d : Scientific) : IsPlain d.positional := by
  have hdigits := isPlain_toDigits d.digits
  unfold positional
  split
  · exact hdigits.append_zeros _
  · exact (hdigits.zeros_append _).insert_point _

/-- The exponent field of a float, read off its bits in two ways. -/
theorem unpackExponent_toNat (b : BitVec 64) :
    (@Float.Model.UnpackedFloat.unpackExponent .binary64 b).toNat =
      b.toNat / Nat.pow 2 52 % Nat.pow 2 11 := by
  simp [Float.Model.UnpackedFloat.unpackExponent, Nat.shiftRight_eq_div_pow]

theorem Shape.ofFloat_of_isFinite {x : Float} (h : x.isFinite = true) :
    ∃ negative m q, Shape.ofFloat x = .finite negative m q := by
  have hexponent : x.toBits.toNat / Nat.pow 2 52 % Nat.pow 2 11 ≠ 2047 := by
    intro hb
    have hones : @Float.Model.UnpackedFloat.unpackExponent .binary64
        x.toModel.toBits.toBitVec = -1#_ := by
      apply BitVec.eq_of_toNat_eq
      rw [unpackExponent_toNat]
      exact hb
    have hspecial : x.isFinite = false := by
      change (Float.Model.UnpackedFloat.unpack .binary64 x.toModel.toBits.toBitVec).isFinite = false
      unfold Float.Model.UnpackedFloat.unpack
      simp only [hones, ↓reduceIte]
      split
      · rfl
      · rfl
    rw [hspecial] at h
    contradiction
  unfold ofFloat
  simp only [hexponent, ↓reduceIte]
  split
  · exact ⟨_, _, _, rfl⟩
  · exact ⟨_, _, _, rfl⟩

theorem floatText_of_isFinite {x : Float} (h : x.isFinite = true) :
    ∃ negative ds, (floatText x).toList = signed negative ds ∧ IsPlain ds := by
  rcases Shape.ofFloat_of_isFinite h with ⟨negative, m, q, hx⟩
  unfold floatText
  rw [hx]
  cases m with
  | zero => exact ⟨negative, ['0'], String.toList_ofList, isPlain_toDigits 0⟩
  | succ m =>
    exact ⟨negative, (shortest (m + 1) q).positional, String.toList_ofList,
      Scientific.isPlain_positional _⟩

theorem intText_eq_signed (n : Int) :
    ∃ negative ds, (toString n).toList = signed negative ds ∧ IsPlain ds := by
  rw [Int.toString_eq_repr]
  cases n with
  | ofNat n => exact ⟨false, Nat.toDigits 10 n, Nat.toList_repr, isPlain_toDigits n⟩
  | negSucc n =>
    refine ⟨true, Nat.toDigits 10 (n + 1), ?_, isPlain_toDigits (n + 1)⟩
    simp [Int.repr, signed]

end Decimal

/-- A finite number is written as a sign and plain digits. -/
theorem Number.text_eq_signed {n : Number} (h : n.isFinite = true) :
    ∃ negative ds, n.text.toList = Decimal.signed negative ds ∧ Decimal.IsPlain ds := by
  cases n with
  | int n => exact Decimal.intText_eq_signed n.toInt
  | uint n => exact ⟨false, Nat.toDigits 10 n.toNat, Nat.toList_repr, Decimal.isPlain_toDigits _⟩
  | float x => exact Decimal.floatText_of_isFinite h

end DynamicSql
