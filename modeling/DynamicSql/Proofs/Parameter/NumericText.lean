import DynamicSql.Expression.Evaluation
import DynamicSql.Proofs.Parameter.IntegerText
import DynamicSql.Proofs.Parameter.NumberText

/-!
The texts that count as numbers. Each reader accepts exactly one part of the grammar of numerals:
digits, a mantissa, an exponent, a sign in front. The words for the values that are not finite are
accepted besides (`number?_text_iff`), and whatever else stands in a text, the text is in no order
with anything.
-/

namespace DynamicSql

namespace Decimal

def IsDigits (cs : List Char) : Prop :=
  cs ≠ [] ∧ ∀ c ∈ cs, c.isDigit = true

/-- Digits with at most one point between them or at one of their ends. -/
inductive IsMantissa : List Char → Prop where
  | whole {ds : List Char} (h : IsDigits ds) : IsMantissa ds
  | pointed {ws fs : List Char} (h : IsDigits (ws ++ fs)) : IsMantissa (ws ++ '.' :: fs)

/-- What may stand behind at most one sign. -/
inductive WithSign (body : List Char → Prop) : List Char → Prop where
  | unsigned {cs : List Char} (h : body cs) : WithSign body cs
  | signed {sign : Char} (hsign : sign = '-' ∨ sign = '+') {cs : List Char} (h : body cs) :
      WithSign body (sign :: cs)

/-- A power of ten, or nothing. -/
inductive IsExponent : List Char → Prop where
  | nil : IsExponent []
  | power {e : Char} (he : e = 'e' ∨ e = 'E') {ds : List Char} (h : WithSign IsDigits ds) :
      IsExponent (e :: ds)

inductive IsNumeral : List Char → Prop where
  | mk {m e : List Char} (hm : IsMantissa m) (he : IsExponent e) : IsNumeral (m ++ e)

/-- The words for the values that are not finite, without regard to ASCII case. -/
def IsWord (cs : List Char) : Prop :=
  cs.map Char.toLower ∈
    [['n', 'a', 'n'], ['i', 'n', 'f'], ['i', 'n', 'f', 'i', 'n', 'i', 't', 'y']]

variable {cs ds : List Char}

/-! Signs -/

/-- A body that never starts with a sign is what is left behind the sign. -/
theorem withSign_iff {body : List Char → Prop}
    (hbody : ∀ cs, body cs → ∀ c ∈ cs.head?, c ≠ '-' ∧ c ≠ '+') :
    WithSign body cs ↔ body (splitSign cs).2 := by
  constructor
  · intro h
    cases h with
    | unsigned h =>
      unfold splitSign
      split
      · exact absurd rfl (hbody _ h '-' rfl).1
      · exact absurd rfl (hbody _ h '+' rfl).2
      · exact h
    | signed hsign h =>
      rcases hsign with rfl | rfl
      · exact h
      · exact h
  · intro h
    unfold splitSign at h
    split at h
    · exact .signed (.inl rfl) h
    · exact .signed (.inr rfl) h
    · exact .unsigned h

theorem IsDigits.isNumeral (h : IsDigits ds) : IsNumeral ds := by
  have hnumeral := IsNumeral.mk (.whole h) .nil
  rwa [List.append_nil] at hnumeral

theorem IsNumeral.exists_head (h : IsNumeral cs) : ∃ c r, cs = c :: r ∧ c ∈ plainChars := by
  obtain ⟨hm, _⟩ := h
  cases hm with
  | @whole ds hds =>
    obtain ⟨d, ds, rfl⟩ := List.exists_cons_of_ne_nil hds.1
    exact ⟨d, _, rfl, mem_plainChars_of_isDigit (hds.2 d List.mem_cons_self)⟩
  | @pointed ws fs hds =>
    cases ws with
    | nil => exact ⟨'.', _, rfl, by decide⟩
    | cons d ws => exact ⟨d, _, rfl, mem_plainChars_of_isDigit (hds.2 d List.mem_cons_self)⟩

/-- Every word starts with a letter. -/
theorem IsWord.exists_head (h : IsWord cs) : ∃ c r, cs = c :: r ∧ c.isAlpha = true := by
  unfold IsWord at h
  cases cs with
  | nil => exact absurd h (by decide)
  | cons c r =>
    refine ⟨c, r, rfl, ?_⟩
    rw [← Char.isAlpha_toLower_eq_isAlpha]
    simp only [List.map_cons, List.mem_cons, List.cons.injEq, List.not_mem_nil, or_false] at h
    obtain ⟨hc, _⟩ | ⟨hc, _⟩ | ⟨hc, _⟩ := h
    all_goals
      rw [hc]
      rfl

theorem IsNumeral.head?_ne_sign (h : IsNumeral cs) : ∀ c ∈ cs.head?, c ≠ '-' ∧ c ≠ '+' := by
  obtain ⟨c, r, rfl, hc⟩ := h.exists_head
  rintro _ ⟨⟩
  refine ⟨?_, ?_⟩
  · rintro rfl
    exact absurd hc (by decide)
  · rintro rfl
    exact absurd hc (by decide)

theorem IsWord.head?_ne_sign (h : IsWord cs) : ∀ c ∈ cs.head?, c ≠ '-' ∧ c ≠ '+' := by
  obtain ⟨c, r, rfl, hletter⟩ := h.exists_head
  rintro _ ⟨⟩
  refine ⟨?_, ?_⟩
  · rintro rfl
    exact absurd hletter (by decide)
  · rintro rfl
    exact absurd hletter (by decide)

theorem IsWord.not_isNumeral (h : IsWord cs) : ¬IsNumeral cs := by
  have hplain : plainChars.all (fun c => !c.isAlpha) = true := by decide
  intro hnumeral
  obtain ⟨c, r, rfl, hletter⟩ := h.exists_head
  obtain ⟨_, _, heq, hc⟩ := hnumeral.exists_head
  cases heq
  have hnone := List.all_eq_true.1 hplain c hc
  rw [hletter] at hnone
  exact absurd hnone (by decide)

/-! Digits and exponents -/

theorem readNat?_isSome_iff : (readNat? ds).isSome ↔ IsDigits ds := by
  simp [readNat?, IsDigits]

theorem isSome_readInt? (cs : List Char) :
    (readInt? cs).isSome = (readNat? (splitSign cs).2).isSome := by
  unfold readInt?
  obtain ⟨negative, ds⟩ := splitSign cs
  dsimp only
  cases readNat? ds with
  | none => rfl
  | some n => rfl

theorem readInt?_isSome_iff : (readInt? cs).isSome ↔ WithSign IsDigits cs := by
  rw [withSign_iff fun _ h => h.isNumeral.head?_ne_sign, ← readNat?_isSome_iff, isSome_readInt?]

theorem readExponent?_isSome_iff : (readExponent? cs).isSome ↔ IsExponent cs := by
  constructor
  · intro h
    unfold readExponent? at h
    split at h
    · exact .nil
    · split at h
      · next he => exact .power he (readInt?_isSome_iff.1 h)
      · contradiction
  · intro h
    cases h with
    | nil => rfl
    | power he h =>
      rw [readExponent?, if_pos he]
      exact readInt?_isSome_iff.2 h

theorem IsExponent.head?_not_digit (h : IsExponent cs) :
    ∀ c ∈ cs.head?, c.isDigit = false ∧ c ≠ '.' := by
  cases h with
  | nil => simp
  | power he _ =>
    rintro _ ⟨⟩
    rcases he with rfl | rfl
    · decide
    · decide

/-! Mantissas -/

/-- The digits behind a point, if there is one, and what follows them. -/
def splitFraction (cs : List Char) : List Char × List Char :=
  match cs with
  | '.' :: r => (r.takeWhile Char.isDigit, r.dropWhile Char.isDigit)
  | _ => ([], cs)

theorem splitFraction_of_ne (h : ∀ c ∈ cs.head?, c ≠ '.') : splitFraction cs = ([], cs) := by
  unfold splitFraction
  split
  · exact absurd rfl (h '.' rfl)
  · rfl

theorem splitFraction_cases (cs : List Char) :
    splitFraction cs = ([], cs) ∨ (∀ c ∈ (splitFraction cs).1, c.isDigit = true) ∧
      cs = '.' :: ((splitFraction cs).1 ++ (splitFraction cs).2) := by
  unfold splitFraction
  split
  · exact .inr ⟨fun _ hc => List.mem_takeWhile_imp hc, by rw [List.takeWhile_append_dropWhile]⟩
  · exact .inl rfl

theorem readMagnitude?_isSome_iff_split :
    (readMagnitude? cs).isSome ↔
      cs.takeWhile Char.isDigit ++ (splitFraction (cs.dropWhile Char.isDigit)).1 ≠ [] ∧
        IsExponent (splitFraction (cs.dropWhile Char.isDigit)).2 := by
  rw [← readExponent?_isSome_iff, readMagnitude?]
  change (if _ ++ (splitFraction (cs.dropWhile Char.isDigit)).1 = [] then none else
    Option.map _ (readExponent? (splitFraction (cs.dropWhile Char.isDigit)).2)).isSome ↔ _
  split
  · next h => simp [h]
  · next h => simp [h]

theorem readMagnitude?_whole {ds e : List Char} (hds : IsDigits ds) (he : IsExponent e) :
    (readMagnitude? (ds ++ e)).isSome := by
  obtain ⟨htake, hdrop⟩ := span_append hds.2 fun c hc => (he.head?_not_digit c hc).1
  have hsplit := splitFraction_of_ne fun c hc => (he.head?_not_digit c hc).2
  rw [readMagnitude?_isSome_iff_split, htake, hdrop, hsplit, List.append_nil]
  exact ⟨hds.1, he⟩

theorem readMagnitude?_pointed {ws fs e : List Char} (h : IsDigits (ws ++ fs))
    (he : IsExponent e) : (readMagnitude? (ws ++ '.' :: fs ++ e)).isSome := by
  obtain ⟨hws, hfs⟩ := List.forall_mem_append.1 h.2
  have hpoint : ∀ c ∈ ('.' :: (fs ++ e)).head?, c.isDigit = false := by
    rintro _ ⟨⟩
    decide
  obtain ⟨htake, hdrop⟩ := span_append hws hpoint
  obtain ⟨htake', hdrop'⟩ := span_append hfs fun c hc => (he.head?_not_digit c hc).1
  rw [List.append_assoc, List.cons_append, readMagnitude?_isSome_iff_split, htake, hdrop,
    splitFraction, htake', hdrop']
  exact ⟨h.1, he⟩

theorem isNumeral_of_readMagnitude? (h : (readMagnitude? cs).isSome) : IsNumeral cs := by
  obtain ⟨hne, he⟩ := readMagnitude?_isSome_iff_split.1 h
  have hwhole : ∀ c ∈ cs.takeWhile Char.isDigit, c.isDigit = true :=
    fun _ hc => List.mem_takeWhile_imp hc
  rw [← List.takeWhile_append_dropWhile (p := Char.isDigit) (l := cs)]
  generalize cs.takeWhile Char.isDigit = ws, cs.dropWhile Char.isDigit = rest at *
  obtain hsplit | ⟨hfraction, hrest⟩ := splitFraction_cases rest
  · rw [hsplit] at hne he
    rw [List.append_nil] at hne
    exact .mk (.whole ⟨hne, hwhole⟩) he
  · rw [hrest, ← List.cons_append, ← List.append_assoc]
    exact .mk (.pointed ⟨hne, List.forall_mem_append.2 ⟨hwhole, hfraction⟩⟩) he

theorem readMagnitude?_isSome_iff : (readMagnitude? cs).isSome ↔ IsNumeral cs := by
  refine ⟨isNumeral_of_readMagnitude?, ?_⟩
  rintro ⟨hm, he⟩
  cases hm with
  | whole h => exact readMagnitude?_whole h he
  | pointed h => exact readMagnitude?_pointed h he

/-! Whole texts -/

theorem readWord?_isSome_iff {negative : Bool} : (readWord? negative cs).isSome ↔ IsWord cs := by
  unfold readWord? IsWord
  simp only [List.mem_cons, List.not_mem_nil, or_false]
  split
  · next h => simp [h]
  · next h =>
    split
    · next h' => simp [h']
    · next h' => simp [h, h']

theorem readFloat?_isSome_iff {f : Format} :
    (readFloat? f cs).isSome ↔ WithSign IsNumeral cs ∨ WithSign IsWord cs := by
  rw [withSign_iff fun _ h => h.head?_ne_sign, withSign_iff fun _ h => h.head?_ne_sign,
    ← readMagnitude?_isSome_iff, readFloat?]
  obtain ⟨negative, body⟩ := splitSign cs
  dsimp only
  cases readMagnitude? body with
  | some m => simp
  | none => simp [readWord?_isSome_iff]

theorem WithSign.mono {body body' : List Char → Prop} (hbody : ∀ cs, body cs → body' cs)
    (h : WithSign body cs) : WithSign body' cs := by
  cases h with
  | unsigned h => exact .unsigned (hbody _ h)
  | signed hsign h => exact .signed hsign (hbody _ h)

theorem isFinite_of_readWord? {negative : Bool} {x : Float} (h : readWord? negative cs = some x) :
    x.isFinite = false := by
  unfold readWord? at h
  dsimp only at h
  split at h
  · cases h
    decide
  · split at h
    · cases h
      cases negative
      · decide
      · decide
    · cases h

theorem readFloat?_of_word (h : WithSign IsWord cs) :
    ∃ x, readFloat? .double cs = some x ∧ x.isFinite = false := by
  have hword := (withSign_iff fun _ h => h.head?_ne_sign).1 h
  have hnone := Option.not_isSome_iff_eq_none.1 (readMagnitude?_isSome_iff.not.2 hword.not_isNumeral)
  have hread : readFloat? .double cs = readWord? (splitSign cs).1 (splitSign cs).2 := by
    rw [readFloat?]
    simp only [hnone]
  obtain ⟨x, hx⟩ := Option.isSome_iff_exists.1 (readWord?_isSome_iff.2 hword)
  exact ⟨x, hread.trans hx, isFinite_of_readWord? hx⟩

end Decimal

open Decimal

namespace Number

variable {cs : List Char}

theorem ofChars?_isSome_iff :
    (ofChars? cs).isSome ↔ WithSign IsNumeral cs ∨ WithSign IsWord cs := by
  rw [← readFloat?_isSome_iff (f := .double), ofChars?_eq]
  cases hint : (readInt? cs).bind ofInt? with
  | none => simp
  | some n =>
    obtain ⟨a, ha, _⟩ := Option.bind_eq_some_iff.1 hint
    have hdigits := readInt?_isSome_iff.1 (Option.isSome_of_eq_some ha)
    have hnumeral := hdigits.mono fun _ h => h.isNumeral
    simp [readFloat?_isSome_iff, hnumeral]

/-- A word is never read as an integer. -/
theorem ofChars?_of_word (h : WithSign IsWord cs) :
    ∃ n, ofChars? cs = some n ∧ n.isFinite = false := by
  have hword := (withSign_iff fun _ h => h.head?_ne_sign).1 h
  have hdigits : ¬WithSign IsDigits cs := by
    rw [withSign_iff fun _ h => h.isNumeral.head?_ne_sign]
    exact fun h => hword.not_isNumeral h.isNumeral
  have hint := Option.not_isSome_iff_eq_none.1 (readInt?_isSome_iff.not.2 hdigits)
  obtain ⟨x, hx, hfinite⟩ := readFloat?_of_word h
  refine ⟨.float x, ?_, hfinite⟩
  rw [ofChars?_eq, hint, hx]
  rfl

end Number

namespace Value

variable {a b : Value} {op : Comparison}

theorem order_of_none (h : a.number? = none ∨ b.number? = none) :
    op.order a b = .error (.typeMismatch op a.kind b.kind) := by
  unfold Comparison.order
  split
  · next ha hb =>
    rw [ha, hb] at h
    simp at h
  · rfl

theorem apply_of_none (hop : op ≠ .eq ∧ op ≠ .ne) (h : a.number? = none ∨ b.number? = none) :
    op.apply a b = .error (.typeMismatch op a.kind b.kind) := by
  cases op with
  | eq => exact absurd rfl hop.1
  | ne => exact absurd rfl hop.2
  | _ => exact order_of_none h

/-- A text counts as a number exactly if what stands between its blanks is a numeral (digits with at
most one point, a sign in front and an exponent behind as may be) or one of the words for the values
that are not finite, which it then stands for. Any other text is in no order with anything: `<`, `<=`,
`>` and `>=` fail on it, whatever value is on the other side. -/
theorem number?_text_iff (s : String) :
    ((∃ n, (Value.text s).number? = some n) ↔
      WithSign IsNumeral (Text.trimChars s.toList) ∨ WithSign IsWord (Text.trimChars s.toList)) ∧
    (WithSign IsWord (Text.trimChars s.toList) →
      ∃ n, (Value.text s).number? = some n ∧ n.isFinite = false) ∧
    (¬WithSign IsNumeral (Text.trimChars s.toList) ∧ ¬WithSign IsWord (Text.trimChars s.toList) →
      ∀ (op : Comparison) (l r : Node) (c : Context) (v : Value), op ≠ .eq ∧ op ≠ .ne →
        (l.operand c = .ok (.text s) → r.operand c = .ok v →
          (Node.compare op l r).test c = .error (.typeMismatch op .text v.kind)) ∧
        (l.operand c = .ok v → r.operand c = .ok (.text s) →
          (Node.compare op l r).test c = .error (.typeMismatch op v.kind .text))) := by
  have hiff : (Value.text s).number?.isSome ↔
      WithSign IsNumeral (Text.trimChars s.toList) ∨ WithSign IsWord (Text.trimChars s.toList) :=
    Number.ofChars?_isSome_iff
  refine ⟨?_, Number.ofChars?_of_word, ?_⟩
  · rw [← Option.isSome_iff_exists]
    exact hiff
  · intro hother op l r c v hop
    have hnone := Option.not_isSome_iff_eq_none.1 (hiff.not.2 (not_or.2 hother))
    refine ⟨?_, ?_⟩
    · intro hl hr
      rw [Node.test, hl, hr]
      exact apply_of_none hop (.inl hnone)
    · intro hl hr
      rw [Node.test, hl, hr]
      exact apply_of_none hop (.inr hnone)

theorem not_isNumeral_of_readFloat? {s : String}
    (h : readFloat? .double (Text.trimChars s.toList) = none) :
    ¬WithSign IsNumeral (Text.trimChars s.toList) ∧ ¬WithSign IsWord (Text.trimChars s.toList) := by
  rw [← not_or, ← readFloat?_isSome_iff (f := .double), h]
  decide

/-- An exponent without digits is no numeral, and a word may have a sign and blanks around it. -/
theorem number?_text_iff_unfinished :
    let v : Value := .list [.null]
    (¬WithSign IsNumeral (Text.trimChars "1e".toList) ∧
      ¬WithSign IsWord (Text.trimChars "1e".toList)) ∧
    (Node.compare .lt (.literal (.text "1e")) (.literal v)).test (.ofRoot .null) =
      .error (.typeMismatch .lt .text .list) ∧
    (Node.compare .ge (.literal v) (.literal (.text "1e"))).test (.ofRoot .null) =
      .error (.typeMismatch .ge .list .text) ∧
    WithSign IsWord (Text.trimChars " -iNf ".toList) ∧
    ∃ n, (Value.text " -iNf ").number? = some n ∧ n.isFinite = false := by
  intro v
  have hother := not_isNumeral_of_readFloat? (s := "1e") (by cbv)
  have hmismatch := (number?_text_iff "1e").2.2 hother
  have hword : WithSign IsWord (Text.trimChars " -iNf ".toList) := by
    have htrim : Text.trimChars " -iNf ".toList = ['-', 'i', 'N', 'f'] := by cbv
    rw [htrim]
    exact .signed (.inl rfl) (by simp [IsWord])
  refine ⟨hother, ?_, ?_, hword, (number?_text_iff " -iNf ").2.1 hword⟩
  · exact (hmismatch .lt _ _ _ v (by decide)).1 rfl rfl
  · exact (hmismatch .ge _ _ _ v (by decide)).2 rfl rfl

/-- A name that happens to be one of the words is compared as a number. -/
theorem number?_infinity :
    ¬WithSign IsNumeral (Text.trimChars "Infinity".toList) ∧
      (∃ n, (Value.text "Infinity").number? = some n) ∧
      ∃ b, Expression.evaluate "name > 3" (.ofRoot (.map [("name", .text "Infinity")])) = .ok b := by
  have hread : Expression.read "name > 3" = .ok ⟨"name > 3",
      .compare .gt (.path (.single "name")) (.literal (.number (.int 3)))⟩ := by cbv
  have hnumeral : ¬WithSign IsNumeral (Text.trimChars "Infinity".toList) := by
    have htrim : Text.trimChars "Infinity".toList = "Infinity".toList := by cbv
    rw [htrim, withSign_iff fun _ h => h.head?_ne_sign, ← readMagnitude?_isSome_iff]
    decide
  refine ⟨hnumeral, ⟨_, rfl⟩, ?_⟩
  unfold Expression.evaluate
  rw [hread]
  exact ⟨_, rfl⟩

end Value

end DynamicSql
