import DynamicSql.Expression.Evaluation
import DynamicSql.Proofs.Parameter.IntegerCasts
import DynamicSql.Proofs.Parameter.IntegerText

/-!
Comparison of integers, each given as a number of either kind or as a text that spells it. Whatever
they are given as, they are compared as integers (`test_compare_integers`): no cast wraps and nothing
passes through a float.
-/

namespace DynamicSql

/-- Whether two integers stand in a relation. -/
def Comparison.holds (op : Comparison) (a b : Int) : Bool :=
  match op with
  | .eq => a == b
  | .ne => a != b
  | .lt => a < b
  | .le => a ≤ b
  | .gt => b < a
  | .ge => b ≤ a

theorem Comparison.admits_compare (op : Comparison) (a b : Int) :
    op.admits (compare a b) = op.holds a b := by
  rcases lt_trichotomy a b with h | rfl | h
  · rw [Int.compare_eq_lt.2 h]
    cases op <;> simp [admits, holds, bne, h, h.le, h.ne, h.not_gt]
  · rw [Int.compare_eq_eq.2 rfl]
    cases op <;> simp [admits, holds]
  · rw [Int.compare_eq_gt.2 h]
    cases op <;> simp [admits, holds, bne, h, h.le, h.ne', h.not_gt]

namespace Value

/-- An integer in one of the ways in which a parameter can give it. -/
inductive IsInteger : Value → Int → Prop
  | int (n : Int64) : IsInteger (.number (.int n)) n.toInt
  | uint (n : UInt64) : IsInteger (.number (.uint n)) n.toNat
  | text {s : String} {a : Int} (h : Decimal.Integer (Text.trimChars s.toList) a) :
      IsInteger (.text s) a

variable {v w : Value} {a b : Int}

theorem IsInteger.toInt? {n : Number} (h : (number n).IsInteger a) : n.toInt? = some a := by
  cases h <;> rfl

theorem IsInteger.exists_number (h : v.IsInteger a) (hrange : Number.InRange a) :
    ∃ n, v.number? = some n ∧ n.toInt? = some a := by
  cases h with
  | int n => exact ⟨_, rfl, rfl⟩
  | uint n => exact ⟨_, rfl, rfl⟩
  | text h => exact Number.exists_ofText? h hrange

theorem order_integers (hv : v.IsInteger a) (hw : w.IsInteger b) (ha : Number.InRange a)
    (hb : Number.InRange b) (op : Comparison) : op.order v w = .ok (op.holds a b) := by
  obtain ⟨m, hm, hma⟩ := hv.exists_number ha
  obtain ⟨n, hn, hnb⟩ := hw.exists_number hb
  rw [Comparison.order, hm, hn]
  dsimp only
  rw [Number.compare?_of_toInt? hma hnb, Option.any_some, op.admits_compare]

theorem equals_integers (hv : v.IsInteger a) (hw : w.IsInteger b) (ha : Number.InRange a)
    (hb : Number.InRange b) (hnumber : v.kind = .number ∨ w.kind = .number) :
    v.equals w = (a == b) := by
  obtain ⟨m, hm, hma⟩ := hv.exists_number ha
  obtain ⟨n, hn, hnb⟩ := hw.exists_number hb
  cases v with
  | number m' =>
    cases w with
    | number n' => exact Number.equals_of_toInt? hv.toInt? hw.toInt?
    | text s =>
      change Number.ofText? s = some n at hn
      rw [equals, hn]
      exact Number.equals_of_toInt? hv.toInt? hnb
    | _ => cases hw
  | text s =>
    cases w with
    | number n' =>
      change Number.ofText? s = some m at hm
      rw [equals, hm]
      exact (Number.equals_of_toInt? hw.toInt? hma).trans BEq.comm
    | text t => simp [kind] at hnumber
    | _ => cases hw
  | _ => cases hv

theorem apply_integers (hv : v.IsInteger a) (hw : w.IsInteger b) (ha : Number.InRange a)
    (hb : Number.InRange b) {op : Comparison}
    (hop : op ≠ .eq ∧ op ≠ .ne ∨ v.kind = .number ∨ w.kind = .number) :
    op.apply v w = .ok (op.holds a b) := by
  have hequals (h : v.kind = .number ∨ w.kind = .number) := equals_integers hv hw ha hb h
  cases op with
  | eq => simp [Comparison.apply, Comparison.holds, hequals (by simpa using hop)]
  | ne => simp [Comparison.apply, Comparison.holds, hequals (by simpa using hop), bne]
  | lt => exact order_integers hv hw ha hb .lt
  | le => exact order_integers hv hw ha hb .le
  | gt => exact order_integers hv hw ha hb .gt
  | ge => exact order_integers hv hw ha hb .ge

theorem IsInteger.exists_text {n : Number} (h : (number n).IsInteger a) :
    ∃ m, Number.ofText? n.text = some m ∧ n.equals m = true ∧ n.compare? m = some .eq := by
  have ha := h.toInt?
  obtain ⟨m, hm, hma⟩ := Number.exists_ofText? (Number.integer_text ha) (Number.inRange_of_toInt? ha)
  refine ⟨m, hm, ?_, ?_⟩
  · rw [Number.equals_of_toInt? ha hma, beq_self_eq_true]
  · rw [Number.compare?_of_toInt? ha hma, Int.compare_eq_eq.2 rfl]

end Value

namespace Node

/-- Two integers between the least signed and the greatest unsigned number of 64 bits, each one a
number of either kind or a text that spells it: `<`, `<=`, `>` and `>=` between operands with these
values say how the integers are related, and so do `==` and `!=` where one of the two is a number, so
that the six never contradict each other. The text of a number is read as a number equal to it. -/
theorem test_compare_integers {v w : Value} {a b : Int} (hv : v.IsInteger a) (hw : w.IsInteger b)
    (ha : Number.InRange a) (hb : Number.InRange b) :
    (∀ (op : Comparison) (l r : Node) (c : Context), l.operand c = .ok v → r.operand c = .ok w →
      op ≠ .eq ∧ op ≠ .ne ∨ v.kind = .number ∨ w.kind = .number →
        (compare op l r).test c = .ok (op.holds a b)) ∧
    ∀ n, v = .number n →
      ∃ m, Number.ofText? n.text = some m ∧ n.equals m = true ∧ n.compare? m = some .eq := by
  refine ⟨?_, ?_⟩
  · intro op l r c hl hr hop
    rw [test, hl, hr]
    exact Value.apply_integers hv hw ha hb hop
  · rintro n rfl
    exact hv.exists_text

/-- The greatest unsigned number beside a text that spells the number with the same bits. -/
theorem test_compare_integers_limits :
    let v : Value := .number (.uint 18446744073709551615)
    let w : Value := .text " -01 "
    v.IsInteger 18446744073709551615 ∧ w.IsInteger (-1) ∧ v.kind = .number ∧
      (∀ (op : Comparison) (c : Context), (compare op (.literal v) (.literal w)).test c =
        .ok (op.holds 18446744073709551615 (-1))) ∧
      ∃ m, Number.ofText? "18446744073709551615" = some m ∧
        Number.equals (.uint 18446744073709551615) m = true := by
  intro v w
  have hv : v.IsInteger 18446744073709551615 := by
    simpa using Value.IsInteger.uint 18446744073709551615
  have htrim : Text.trimChars " -01 ".toList = ['-', '0', '1'] := by cbv
  have hread : Decimal.readBelow? 10 ['0', '1'] = some 1 := by decide
  have hone := (Decimal.readBelow?_eq_some_iff.1 hread).1
  have hw : w.IsInteger (-1) := by
    apply Value.IsInteger.text
    rw [htrim]
    exact .negative hone (by decide)
  have h := test_compare_integers hv hw (by norm_num [Number.InRange]) (by norm_num [Number.InRange])
  obtain ⟨m, hm, hequals, -⟩ := h.2 _ rfl
  exact ⟨hv, hw, rfl, fun op c => h.1 op _ _ c rfl rfl (.inr (.inl rfl)), m, hm, hequals⟩

end Node

end DynamicSql
