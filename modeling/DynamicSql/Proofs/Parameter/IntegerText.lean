import DynamicSql.Parameter.Value
import DynamicSql.Proofs.Parameter.PathGrammar

/-!
Integers as texts and as numbers. Every integer that a number can hold is read from each of its
decimal spellings without loss (`Number.exists_ofText?`), at the limits of both kinds too, and the
text of a number is such a spelling (`Number.integer_text`).
-/

namespace DynamicSql

namespace Decimal

/-- A decimal with or without a sign in front, and its value. -/
inductive Integer : List Char → Int → Prop where
  | unsigned {cs : List Char} {n : Nat} (h : Unsigned cs n) : Integer cs n
  | negative {ds : List Char} {n : Nat} (h : Unsigned ds n) (hplus : '+' ∉ ds) :
      Integer ('-' :: ds) (-n)

variable {cs ds : List Char} {n : Nat} {a : Int}

theorem Unsigned.eq_plus_append (h : Unsigned cs n) :
    ∃ plus ds, (plus = [] ∨ plus = ['+']) ∧ cs = plus ++ ds ∧ (∀ c ∈ ds, c.isDigit = true) ∧
      readNat? ds = some n := by
  cases h with
  | @mk plus ds hplus hne hdigits =>
    refine ⟨plus, ds, hplus, rfl, hdigits, ?_⟩
    exact readNat?_eq_some_iff.2 ⟨⟨hne, hdigits⟩, digitsValue_eq_ofDigits ds⟩

theorem splitSign_of_isDigit (h : ∀ c ∈ ds, c.isDigit = true) : splitSign ds = (false, ds) := by
  unfold splitSign
  split
  · exact absurd (h '-' List.mem_cons_self) (by decide)
  · exact absurd (h '+' List.mem_cons_self) (by decide)
  · rfl

theorem readInt?_of_integer (h : Integer cs a) : readInt? cs = some a := by
  cases h with
  | unsigned h =>
    obtain ⟨plus, ds, hplus, rfl, hdigits, hread⟩ := h.eq_plus_append
    have hsplit : splitSign (plus ++ ds) = (false, ds) := by
      rcases hplus with rfl | rfl
      · exact splitSign_of_isDigit hdigits
      · rfl
    simp [readInt?, hsplit, hread]
  | negative h hplus =>
    obtain ⟨plus, ds, hsign, rfl, hdigits, hread⟩ := h.eq_plus_append
    rcases hsign with rfl | rfl
    · simp [readInt?, splitSign, hread]
    · simp at hplus

/-- A minus takes the rest of the text to its negative, and then no natural number is read. -/
theorem readInt?_cases (cs : List Char) :
    (∃ ds, readInt? cs = (readNat? ds).map (fun n : Nat => -(n : Int)) ∧
      ∀ bound, readBelow? bound cs = none) ∨
    ∃ ds, readInt? cs = (readNat? ds).map (fun n : Nat => (n : Int)) ∧
      ∀ bound, readBelow? bound cs = (readNat? ds).filter (· < bound) := by
  unfold readInt? readBelow?
  generalize hsplit : splitSign cs = split
  unfold splitSign at hsplit
  split at hsplit
  · next ds =>
    subst hsplit
    have hnone : readNat? ('-' :: ds) = none := if_neg (by simp)
    refine .inl ⟨ds, rfl, fun bound => ?_⟩
    exact congrArg (Option.filter (· < bound)) hnone
  · next ds =>
    subst hsplit
    exact .inr ⟨ds, rfl, fun bound => rfl⟩
  · next hminus hplus =>
    subst hsplit
    refine .inr ⟨cs, rfl, fun bound => ?_⟩
    split
    · next ds => exact absurd rfl (hplus ds)
    · rfl

theorem unsigned_toDigits (n : Nat) : Unsigned (Nat.toDigits 10 n) n := by
  have hdigits : ∀ c ∈ Nat.toDigits 10 n, c.isDigit = true :=
    fun c hc => Nat.isDigit_of_mem_toDigits (by decide) (by decide) hc
  have h := Unsigned.mk (.inl rfl) Nat.toDigits_ne_nil hdigits
  rw [← digitsValue_eq_ofDigits] at h
  change Unsigned _ (Nat.ofDigitChars 10 (Nat.toDigits 10 n) 0) at h
  rwa [Nat.ofDigitChars_toDigits (by decide) (by decide)] at h

theorem integer_toString (a : Int) : Integer (toString a).toList a := by
  rw [Int.toString_eq_repr]
  cases a with
  | ofNat n =>
    change Integer (Nat.repr n).toList n
    rw [Nat.toList_repr]
    exact .unsigned (unsigned_toDigits n)
  | negSucc n =>
    have hplus : '+' ∉ Nat.toDigits 10 (n + 1) := by
      intro h
      exact absurd (Nat.isDigit_of_mem_toDigits (by decide) (by decide) h) (by decide)
    have h := Integer.negative (unsigned_toDigits (n + 1)) hplus
    simpa [Int.repr, Int.negSucc_eq] using h

theorem not_isBlank_of_isDigit {c : Char} (h : c.isDigit = true) : Text.isBlankChar c = false := by
  have hbounds : 48 ≤ c.toNat ∧ c.toNat ≤ 57 := Char.isDigit_iff_toNat.1 h
  simp only [Text.isBlankChar, Bool.or_eq_false_iff, Bool.and_eq_false_iff, decide_eq_false_iff_not,
    beq_eq_false_iff_ne]
  omega

theorem Unsigned.not_isBlank (h : Unsigned cs n) : ∀ c ∈ cs, Text.isBlankChar c = false := by
  obtain ⟨plus, ds, hplus, rfl, hdigits, -⟩ := h.eq_plus_append
  intro c hc
  rcases List.mem_append.1 hc with hc | hc
  · rcases hplus with rfl | rfl
    · cases hc
    · rw [List.mem_singleton.1 hc]
      decide
  · exact not_isBlank_of_isDigit (hdigits c hc)

theorem Integer.not_isBlank (h : Integer cs a) : ∀ c ∈ cs, Text.isBlankChar c = false := by
  cases h with
  | unsigned h => exact h.not_isBlank
  | negative h _ => exact List.forall_mem_cons.2 ⟨by decide, h.not_isBlank⟩

end Decimal

namespace Number

/-- The integers that one of the two kinds can hold. -/
def InRange (a : Int) : Prop :=
  -2 ^ 63 ≤ a ∧ a < 2 ^ 64

variable {a : Int}

theorem inRange_of_toInt? {n : Number} (h : n.toInt? = some a) : InRange a := by
  unfold InRange
  cases n with
  | int n =>
    cases h
    have := n.le_toInt
    have := n.toInt_lt
    omega
  | uint n =>
    cases h
    have := n.toNat_lt
    omega
  | float x => cases h

theorem exists_ofInt? (h : InRange a) : ∃ n, ofInt? a = some n ∧ n.toInt? = some a := by
  unfold InRange at h
  have hmin : Int64.minValue.toInt = -2 ^ 63 := by decide
  have hmax : Int64.maxValue.toInt = 2 ^ 63 - 1 := by decide
  unfold ofInt?
  rw [hmin, hmax]
  split
  · refine ⟨_, rfl, ?_⟩
    rw [toInt?, Int64.toInt_ofInt_of_le h.1 (by omega)]
  · have hsize : a.toNat < UInt64.size := by
      simp only [UInt64.size]
      omega
    have hpos : 0 ≤ a := by omega
    rw [if_pos ⟨hpos, by omega⟩]
    refine ⟨_, rfl, ?_⟩
    rw [toInt?, UInt64.toNat_ofNat_of_lt' hsize, Int.toNat_of_nonneg hpos]

/-- The two readers for integers find every integer that one of the kinds can hold. -/
theorem ofChars?_eq (cs : List Char) :
    ofChars? cs =
      match (Decimal.readInt? cs).bind ofInt? with
      | some n => some n
      | none => (Decimal.readFloat? .double cs).map .float := by
  have hmin : Int64.minValue.toInt = -2 ^ 63 := by decide
  have hmax : Int64.maxValue.toInt = 2 ^ 63 - 1 := by decide
  unfold ofChars? readSigned? readUnsigned?
  obtain ⟨ds, hint, hbelow⟩ | ⟨ds, hint, hbelow⟩ := Decimal.readInt?_cases cs
  · rw [hint, hbelow]
    cases Decimal.readNat? ds with
    | none => rfl
    | some n =>
      rw [Option.map_some, Option.bind_some, Option.bind_some, ofInt?]
      by_cases hfits : Int64.minValue.toInt ≤ -(n : Int) ∧ -(n : Int) ≤ Int64.maxValue.toInt
      · rw [if_pos hfits, if_pos hfits]
      · rw [if_neg hfits, if_neg hfits, if_neg (by omega)]
        rfl
  · rw [hint, hbelow]
    cases Decimal.readNat? ds with
    | none => rfl
    | some n =>
      rw [Option.map_some, Option.bind_some, Option.bind_some, ofInt?, Option.filter_some]
      by_cases hfits : Int64.minValue.toInt ≤ (n : Int) ∧ (n : Int) ≤ Int64.maxValue.toInt
      · rw [if_pos hfits, if_pos hfits]
      · rw [if_neg hfits, if_neg hfits]
        by_cases hsize : n < UInt64.size
        · rw [if_pos (decide_eq_true hsize), if_pos (by omega), Int.toNat_natCast]
          rfl
        · rw [if_neg (by simpa using hsize), if_neg (by omega)]
          rfl

theorem exists_ofText? {s : String} (h : Decimal.Integer (Text.trimChars s.toList) a)
    (hrange : InRange a) : ∃ n, ofText? s = some n ∧ n.toInt? = some a := by
  obtain ⟨n, hn, ha⟩ := exists_ofInt? hrange
  refine ⟨n, ?_, ha⟩
  rw [ofText?, ofChars?_eq, Decimal.readInt?_of_integer h, Option.bind_some, hn]

theorem integer_text {n : Number} (h : n.toInt? = some a) :
    Decimal.Integer (Text.trimChars n.text.toList) a := by
  have htext : n.text = toString a := by
    cases n with
    | int n => cases h; rfl
    | uint n => cases h; rfl
    | float x => cases h
  have hspelled := Decimal.integer_toString a
  rwa [htext, Text.trimChars_of_forall hspelled.not_isBlank]

end Number

end DynamicSql
