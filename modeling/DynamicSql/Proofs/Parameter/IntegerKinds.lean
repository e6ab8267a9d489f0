import DynamicSql.Expression.Evaluation
import DynamicSql.Parameter.Conversion
import DynamicSql.Parameter.Json
import DynamicSql.Proofs.Parameter.IntegerCasts
import DynamicSql.Proofs.Parameter.IntegerText
import DynamicSql.Sql.Literal
import Mathlib.Data.List.Forall2

/-!
Values that differ in the kinds of their integers only. They are written alike, they are in the same
order with others, and a scalar is equal to the same values (`equals_twins`). Two collections are
compared by their structure, where the kinds count.
-/

namespace DynamicSql

namespace Number

/-- One number, or one integer in either kind. -/
inductive Twins : Number → Number → Prop where
  | refl (n : Number) : Twins n n
  | integers {m n : Number} {a : Int} (hm : m.toInt? = some a) (hn : n.toInt? = some a) : Twins m n

variable {m n m' n' : Number} {a : Int}

theorem text_eq_toString (h : n.toInt? = some a) : n.text = toString a := by
  cases n with
  | int n => cases h; rfl
  | uint n => cases h; rfl
  | float x => cases h

theorem Twins.toInt?_eq (h : Twins m n) : m.toInt? = n.toInt? := by
  cases h with
  | refl => rfl
  | integers hm hn => rw [hm, hn]

theorem Twins.text_eq (h : Twins m n) : m.text = n.text := by
  cases h with
  | refl => rfl
  | integers hm hn => rw [text_eq_toString hm, text_eq_toString hn]

theorem isFinite_of_toInt? (h : n.toInt? = some a) : n.isFinite = true := by
  cases n with
  | int n => rfl
  | uint n => rfl
  | float x => cases h

theorem Twins.isFinite_eq (h : Twins m n) : m.isFinite = n.isFinite := by
  cases h with
  | refl => rfl
  | integers hm hn => rw [isFinite_of_toInt? hm, isFinite_of_toInt? hn]

/-- As a float an integer has no kind either. -/
theorem toFloat_signed {m : Int64} {n : UInt64} (h : m.toInt = n.toNat) :
    (int m).toFloat = (uint n).toFloat := by
  have hpos : ¬m < 0 := by
    rw [toInt_neg_iff, h]
    omega
  have hsame : m.toUInt64 = n := by
    rw [← UInt64.toNat_inj, ← Int.ofNat_inj, toNat_toUInt64 hpos, h]
  rw [toFloat, if_neg hpos, hsame, toFloat]

theorem Twins.toFloat_eq (h : Twins m n) : m.toFloat = n.toFloat := by
  cases h with
  | refl => rfl
  | integers hm hn =>
    cases m with
    | float x => cases hm
    | int m =>
      cases hm
      cases n with
      | float x => cases hn
      | int n => rw [Int64.toInt_inj.1 (Option.some.inj hn)]
      | uint n => exact toFloat_signed (Option.some.inj hn).symm
    | uint m =>
      cases hm
      cases n with
      | float x => cases hn
      | int n => exact (toFloat_signed (Option.some.inj hn)).symm
      | uint n => rw [UInt64.toNat_inj.1 (Int.ofNat.inj (Option.some.inj hn))]

theorem equals_twins (hm : Twins m m') (hn : Twins n n') : m.equals n = m'.equals n' := by
  rw [equals_eq, equals_eq, hm.toInt?_eq, hn.toInt?_eq, hm.toFloat_eq, hn.toFloat_eq]

theorem compare?_twins (hm : Twins m m') (hn : Twins n n') : m.compare? n = m'.compare? n' := by
  rw [compare?_eq, compare?_eq, hm.toInt?_eq, hn.toInt?_eq, hm.toFloat_eq, hn.toFloat_eq]

end Number

namespace Value

/-- The same value but for the kinds of its integers, at any depth. -/
inductive Twins : Value → Value → Prop where
  | refl (v : Value) : Twins v v
  | number {m n : Number} (h : Number.Twins m n) : Twins (.number m) (.number n)
  | list {xs ys : List Value} (h : List.Forall₂ Twins xs ys) : Twins (.list xs) (.list ys)
  | map {es fs : Entries Value} (hkeys : es.keys = fs.keys)
      (hvalues : List.Forall₂ Twins (es.map Prod.snd) (fs.map Prod.snd)) :
      Twins (.map es) (.map fs)

variable {v w v' w' : Value}

theorem Twins.of_list {xs ys : List Value} (h : Twins (.list xs) (.list ys)) :
    List.Forall₂ Twins xs ys := by
  cases h with
  | refl => exact List.forall₂_same.2 fun v _ => .refl v
  | list h => exact h

theorem Twins.of_map {es fs : Entries Value} (h : Twins (.map es) (.map fs)) :
    es.keys = fs.keys ∧ List.Forall₂ Twins (es.map Prod.snd) (fs.map Prod.snd) := by
  cases h with
  | refl => exact ⟨rfl, List.forall₂_same.2 fun v _ => .refl v⟩
  | map hkeys hvalues => exact ⟨hkeys, hvalues⟩

theorem Twins.kind_eq (h : v.Twins w) : v.kind = w.kind := by
  cases h <;> rfl

theorem Twins.isScalar_eq (h : v.Twins w) : v.isScalar = w.isScalar := by
  cases h <;> rfl

theorem Twins.isTruthy_eq (h : v.Twins w) : v.isTruthy = w.isTruthy := by
  cases h with
  | refl => rfl
  | number h => rfl
  | list h => cases h <;> rfl
  | @map es fs hkeys _ =>
    cases es with
    | nil =>
      cases fs with
      | nil => rfl
      | cons f fs => cases hkeys
    | cons e es =>
      cases fs with
      | nil => cases hkeys
      | cons f fs => rfl

theorem Twins.rawText?_eq (h : v.Twins w) : v.rawText? = w.rawText? := by
  cases h with
  | refl => rfl
  | number h => exact congrArg some h.text_eq
  | list h => rfl
  | map hkeys hvalues => rfl

theorem Twins.raw_eq (h : v.Twins w) : v.raw = w.raw := by
  rw [raw, raw, h.rawText?_eq, h.kind_eq]

theorem Twins.literal_eq (h : v.Twins w) (o : Options) : o.literal v = o.literal w := by
  cases h with
  | refl => rfl
  | number h => rw [Options.literal, Options.literal, h.isFinite_eq, h.text_eq]
  | list h => rfl
  | map hkeys hvalues => rfl

theorem Twins.number?_rel (h : v.Twins w) : Option.Rel Number.Twins v.number? w.number? := by
  cases h with
  | refl =>
    cases v.number? with
    | none => exact .none
    | some n => exact .some (.refl n)
  | number h => exact .some h
  | list h => exact .none
  | map hkeys hvalues => exact .none

theorem order_twins (op : Comparison) (hv : v.Twins v') (hw : w.Twins w') :
    op.order v w = op.order v' w' := by
  have hm := hv.number?_rel
  have hn := hw.number?_rel
  unfold Comparison.order
  rw [hv.kind_eq, hw.kind_eq]
  generalize v.number? = m, v'.number? = m' at hm
  generalize w.number? = n, w'.number? = n' at hn
  cases hm with
  | none => rfl
  | some hm =>
    cases hn with
    | none => rfl
    | some hn =>
      dsimp only
      rw [Number.compare?_twins hm hn]

/-- A number and a text beside it. -/
theorem any_equals_twins {m n : Number} (h : Number.Twins m n) (s : String) :
    (Number.ofText? s).any m.equals = (Number.ofText? s).any n.equals := by
  cases Number.ofText? s with
  | none => rfl
  | some k => exact Number.equals_twins h (.refl k)

theorem equals_number_twins {m n : Number} (h : Number.Twins m n) (v : Value) :
    (number m).equals v = (number n).equals v ∧ v.equals (number m) = v.equals (number n) := by
  cases v with
  | number k => exact ⟨Number.equals_twins h (.refl k), Number.equals_twins (.refl k) h⟩
  | text s => exact ⟨any_equals_twins h s, any_equals_twins h s⟩
  | null => exact ⟨rfl, rfl⟩
  | bool b => exact ⟨rfl, rfl⟩
  | list xs => exact ⟨rfl, rfl⟩
  | map es => exact ⟨rfl, rfl⟩

/-- A scalar is equal to no collection. -/
theorem equals_collection (hv : v.isScalar = true) (hw : w.isScalar = false) :
    v.equals w = false ∧ w.equals v = false := by
  cases w with
  | list ys => cases v <;> first | exact ⟨rfl, rfl⟩ | cases hv
  | map fs => cases v <;> first | exact ⟨rfl, rfl⟩ | cases hv
  | _ => cases hw

theorem Twins.collections (h : v.Twins w) :
    v.isScalar = true ∨ (∃ xs ys, v = .list xs ∧ w = .list ys) ∨
      ∃ es fs, v = .map es ∧ w = .map fs := by
  cases h with
  | refl =>
    cases v with
    | list xs => exact .inr (.inl ⟨xs, xs, rfl, rfl⟩)
    | map es => exact .inr (.inr ⟨es, es, rfl, rfl⟩)
    | _ => exact .inl rfl
  | number h => exact .inl rfl
  | list h => exact .inr (.inl ⟨_, _, rfl, rfl⟩)
  | map hkeys hvalues => exact .inr (.inr ⟨_, _, rfl, rfl⟩)

theorem Twins.number_of_scalar (h : v.Twins w) (hv : v.isScalar = true) :
    v = w ∨ ∃ m n, v = .number m ∧ w = .number n ∧ Number.Twins m n := by
  cases h with
  | refl => exact .inl rfl
  | number h => exact .inr ⟨_, _, rfl, rfl, h⟩
  | list h => cases hv
  | map hkeys hvalues => cases hv

theorem equals_twins_left (hv : v.Twins v') (hscalar : v.isScalar = true) (w : Value) :
    v.equals w = v'.equals w ∧ w.equals v = w.equals v' := by
  rcases hv.number_of_scalar hscalar with rfl | ⟨m, n, rfl, rfl, h⟩
  · exact ⟨rfl, rfl⟩
  · exact equals_number_twins h w

theorem equals_twins (hv : v.Twins v') (hw : w.Twins w')
    (h : v.isScalar = true ∨ w.isScalar = true) : v.equals w = v'.equals w' := by
  cases hvs : v.isScalar with
  | true =>
    rw [(equals_twins_left hv hvs w).1]
    cases hws : w.isScalar with
    | true => exact (equals_twins_left hw hws v').2
    | false =>
      rw [hv.isScalar_eq] at hvs
      rw [(equals_collection hvs hws).1]
      rw [hw.isScalar_eq] at hws
      exact (equals_collection hvs hws).1.symm
  | false =>
    have hws := h.resolve_left (by simp [hvs])
    rw [(equals_twins_left hw hws v).2]
    rw [hw.isScalar_eq] at hws
    rw [(equals_collection hws hvs).2]
    rw [hv.isScalar_eq] at hvs
    exact (equals_collection hws hvs).2.symm

theorem equals_of_collection (hv : v.isScalar = false) (w : Value) : v.equals w = v.same w := by
  cases v with
  | list xs => cases w <;> rfl
  | map es => cases w <;> rfl
  | _ => cases hv

theorem apply_twins (op : Comparison) (hv : v.Twins v') (hw : w.Twins w')
    (h : (op = .eq ∨ op = .ne) → v.equals w = v'.equals w') : op.apply v w = op.apply v' w' := by
  cases op with
  | eq => exact congrArg Except.ok (h (.inl rfl))
  | ne => exact congrArg (fun b => Except.ok !b) (h (.inr rfl))
  | lt => exact order_twins .lt hv hw
  | le => exact order_twins .le hv hw
  | gt => exact order_twins .gt hv hw
  | ge => exact order_twins .ge hv hw

end Value

/-! Conversions -/

/-- Only zero starts with a zero. -/
theorem Decimal.head?_toDigits_ne {n : Nat} (h : n ≠ 0) : (Nat.toDigits 10 n).head? ≠ some '0' := by
  induction n using Nat.strongRecOn with
  | ind n ih =>
    by_cases hlt : n < 10
    · rw [Nat.toDigits_of_lt_base hlt]
      interval_cases n
      all_goals first | contradiction | decide
    · rw [Nat.toDigits_of_base_le (by decide) (Nat.not_lt.1 hlt),
        List.head?_append_of_ne_nil _ Nat.toDigits_ne_nil]
      exact ih _ (by omega) (by omega)

namespace Json

/-- Digits without a zero in front of others. -/
theorem isNumberText_of_digits {ds : List Char} (hdigits : ∀ c ∈ ds, c.isDigit = true)
    (hne : ds ≠ []) (hzero : ds.head? = some '0' → ds.length = 1) : isNumberText ds = true := by
  unfold isNumberText
  dsimp only
  split
  · exact absurd (hdigits '-' List.mem_cons_self) (by decide)
  · rw [List.takeWhile_eq_self_iff.2 hdigits, List.dropWhile_eq_nil_iff.2 hdigits]
    by_cases h : ds.head? = some '0'
    · simp [hzero h]
    · have hlength := List.length_pos_of_ne_nil hne
      have hlength : 1 < ds.length ∨ ds.length = 1 := by omega
      rcases hlength with hlength | hlength
      · simp [h, hlength]
      · simp [hlength]

theorem readNumber?_toDigits (n : UInt64) :
    ∃ m, readNumber? (Nat.toDigits 10 n.toNat) = some m ∧ m.toInt? = some (n.toNat : Int) := by
  have hdigits : ∀ c ∈ Nat.toDigits 10 n.toNat, c.isDigit = true :=
    fun c hc => Nat.isDigit_of_mem_toDigits (by decide) (by decide) hc
  have hzero : (Nat.toDigits 10 n.toNat).head? = some '0' →
      (Nat.toDigits 10 n.toNat).length = 1 := by
    intro h
    by_cases hn : n.toNat = 0
    · rw [hn]
      rfl
    · exact absurd h (Decimal.head?_toDigits_ne hn)
  have hsign : Nat.toDigits 10 n.toNat ≠ ['-', '0'] := by
    intro h
    rw [h] at hdigits
    exact absurd (hdigits '-' List.mem_cons_self) (by decide)
  obtain ⟨m, hm, ha⟩ := Number.exists_ofInt? (Number.inRange_of_toInt? (n := .uint n) rfl)
  refine ⟨m, ?_, ha⟩
  have hread := Decimal.readInt?_of_integer (.unsigned (Decimal.unsigned_toDigits n.toNat))
  rw [readNumber?, isNumberText_of_digits hdigits Nat.toDigits_ne_nil hzero, hread,
    Option.bind_some, hm]
  simp [hsign]

end Json

/-- An unsigned integer is converted with its kind, and serialized and read from JSON without it. -/
theorem Value.twins_converted (n : UInt64) :
    (∃ v, serialize (n.toNat : Int) = .ok v ∧ (toValue n).Twins v) ∧
      ∃ m, Json.readNumber? (Number.uint n).text.toList = some m ∧
        (toValue n).Twins (.number m) := by
  obtain ⟨m, hm, ha⟩ := Number.exists_ofInt? (Number.inRange_of_toInt? (n := .uint n) rfl)
  obtain ⟨k, hk, hb⟩ := Json.readNumber?_toDigits n
  refine ⟨⟨.number m, ?_, .number (.integers rfl ha)⟩, k, ?_, .number (.integers rfl hb)⟩
  · simp only [serialize, hm]
  · rw [← hk, Number.text]
    exact congrArg Json.readNumber? Nat.toList_repr

end DynamicSql
