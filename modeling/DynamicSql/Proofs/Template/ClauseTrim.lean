import DynamicSql.Proofs.Sql.LiteralForm
import DynamicSql.Proofs.Template.Layout
import Mathlib.Data.List.Infix

/-!
The trimming of set and where clauses spares literals and placeholders: neither of them begins or
ends with a blank, ends with a comma or begins with a part of a conjunction.
-/

namespace DynamicSql

namespace Trim

def IsClause (t : Trim) : Prop :=
  t = .setClause ∨ t = .whereClause

theorem blocks_of_head {word : List Char} {c : Char} (h : ∀ a ∈ word, agreeChar a c = false)
    (text : List Char) : Blocks word (c :: text) := by
  intro v hv hne cs
  cases v with
  | nil => contradiction
  | cons a v =>
    have ha := h a (hv.subset List.mem_cons_self)
    simp [strip?, ha]

theorem spares_of_clause {t : Trim} (ht : t.IsClause) {text : List Char} (hstart : StartsInk text)
    (hwords : ∀ word ∈ whereClause.leadingOverrides, Blocks word.toList text)
    (hstop : ∃ c cs, text.reverse = c :: cs ∧ Text.isBlankChar c = false ∧
      agreeChar ',' c = false) : t.Spares text := by
  rcases hstop with ⟨c, cs, hrev, hc, hcomma⟩
  rcases ht with rfl | rfl
  · refine ⟨hstart, ⟨c, cs, hrev, hc⟩, List.forall_mem_nil _, ?_⟩
    intro word hword
    rw [List.mem_singleton.1 hword, hrev]
    apply blocks_of_head
    intro a ha
    rw [List.mem_singleton.1 ha]
    exact hcomma
  · exact ⟨hstart, ⟨c, cs, hrev, hc⟩, hwords, List.forall_mem_nil _⟩

/-- A character that a conjunction, or what ends it, may be read into. -/
def isConjunctionChar (c : Char) : Bool :=
  ['A', 'N', 'D', 'O', 'R', ' ', '\n'].any (agreeChar · c)

theorem agreeChar_of_conjunction {word : String} (hword : word ∈ whereClause.leadingOverrides)
    {a c : Char} (ha : a ∈ word.toList) (hc : isConjunctionChar c = false) :
    agreeChar a c = false := by
  have hletters : (whereClause.leadingOverrides.all fun word =>
      word.toList.all ['A', 'N', 'D', 'O', 'R', ' ', '\n'].contains) = true := by
    decide
  have hletter := List.all_eq_true.1 (List.all_eq_true.1 hletters word hword) a ha
  exact Bool.eq_false_iff.2 (List.any_eq_false.1 hc a (List.contains_iff_mem.1 hletter))

theorem blocks_conjunction {c : Char} (h : isConjunctionChar c = false) (text word)
    (hword : word ∈ whereClause.leadingOverrides) : Blocks word.toList (c :: text) :=
  blocks_of_head (fun _ ha => agreeChar_of_conjunction hword ha h) text

/-- An `N` goes on into a conjunction only if a `D` follows. -/
theorem blocks_conjunction_of_n {c : Char} (h : agreeChar 'D' c = false) (text word)
    (hword : word ∈ whereClause.leadingOverrides) : Blocks word.toList ('N' :: c :: text) := by
  have hnext : (whereClause.leadingOverrides.all fun word => word.toList.tails.all fun v =>
      !(v.head?.any (agreeChar · 'N')) || v.tail.head? == some 'D') = true := by
    decide
  intro v hv hne cs
  cases v with
  | nil => contradiction
  | cons a v =>
    by_cases ha : agreeChar a 'N' = true
    · have hd := List.all_eq_true.1 (List.all_eq_true.1 hnext word hword) (a :: v)
        ((List.mem_tails _ _).2 hv)
      simp only [List.head?_cons, Option.any_some, ha, Bool.not_true, Bool.false_or,
        List.tail_cons, beq_iff_eq] at hd
      cases v with
      | nil => contradiction
      | cons b v =>
        cases hd
        simp [strip?, h]
    · simp [strip?, ha]

theorem ink_of_plain {c : Char} (h : c ∈ Decimal.plainChars) :
    Text.isBlankChar c = false ∧ agreeChar ',' c = false ∧ isConjunctionChar c = false := by
  have hplain : (Decimal.plainChars.all fun c =>
      !Text.isBlankChar c && !agreeChar ',' c && !isConjunctionChar c) = true := by
    decide
  have hc := List.all_eq_true.1 hplain c h
  simp only [Bool.and_eq_true, Bool.not_eq_true'] at hc
  exact ⟨hc.1.1, hc.1.2, hc.2⟩

theorem stop_of_plain (text : List Char) {ds : List Char} (h : Decimal.IsPlain ds) :
    ∃ c cs, (text ++ ds).reverse = c :: cs ∧ Text.isBlankChar c = false ∧
      agreeChar ',' c = false := by
  cases hrev : ds.reverse with
  | nil => exact absurd (List.reverse_eq_nil_iff.1 hrev) h.1
  | cons c cs =>
    have hc : c ∈ ds := by
      rw [← List.mem_reverse, hrev]
      exact List.mem_cons_self
    have hink := ink_of_plain (h.2 c hc)
    exact ⟨c, cs ++ text.reverse, by rw [List.reverse_append, hrev]; rfl, hink.1, hink.2.1⟩

variable {t : Trim}

theorem spares_of_start (ht : t.IsClause) {c : Char} {text : List Char}
    (hblank : Text.isBlankChar c = false) (hletters : isConjunctionChar c = false)
    (hstop : ∃ d ds, (c :: text).reverse = d :: ds ∧ Text.isBlankChar d = false ∧
      agreeChar ',' d = false) : t.Spares (c :: text) :=
  spares_of_clause ht ⟨c, text, rfl, hblank⟩ (blocks_conjunction hletters text) hstop

theorem spares_number (ht : t.IsClause) (negative : Bool) {ds : List Char}
    (h : Decimal.IsPlain ds) : t.Spares (Decimal.signed negative ds) := by
  cases negative with
  | true => exact spares_of_start ht (by decide) (by decide) (stop_of_plain ['-'] h)
  | false =>
    have hstop := stop_of_plain [] h
    cases ds with
    | nil => exact absurd rfl h.1
    | cons c ds =>
      have hink := ink_of_plain (h.2 c List.mem_cons_self)
      exact spares_of_start ht hink.1 hink.2.2 hstop

theorem spares_string (ht : t.IsClause) (o : Options) (s : List Char) :
    t.Spares (o.mark.toList ++ '\'' :: (s ++ ['\''])) := by
  have hstop : ∀ text : List Char, ∃ d ds, (text ++ '\'' :: (s ++ ['\''])).reverse = d :: ds ∧
      Text.isBlankChar d = false ∧ agreeChar ',' d = false := by
    intro text
    exact ⟨'\'', (text ++ '\'' :: s).reverse, by simp, by decide, by decide⟩
  have hmark : o.mark.toList = [] ∨ o.mark.toList = ['N'] ∨ o.mark.toList = ['E'] := by
    cases o with
    | mk flavor escape => cases flavor <;> cases escape <;> decide
  rcases hmark with hmark | hmark | hmark
  · rw [hmark]
    exact spares_of_start ht (by decide) (by decide) (hstop [])
  · rw [hmark]
    exact spares_of_clause ht ⟨'N', _, rfl, by decide⟩
      (blocks_conjunction_of_n (by decide) _) (hstop ['N'])
  · rw [hmark]
    exact spares_of_start ht (by decide) (by decide) (hstop ['E'])

theorem spares_literal (ht : t.IsClause) {o : Options} {v : Value} {text : List Char}
    (h : Options.LiteralForm o v text) : t.Spares text := by
  cases h with
  | null =>
    exact spares_of_clause ht ⟨'N', _, rfl, by decide⟩ (blocks_conjunction_of_n (by decide) _)
      ⟨'L', _, rfl, by decide, by decide⟩
  | truth b =>
    have htruth : (o.flavor.truth b).toList ∈
        [['T', 'R', 'U', 'E'], ['F', 'A', 'L', 'S', 'E'], ['1'], ['0']] := by
      cases o.flavor <;> cases b <;> decide
    revert htruth
    generalize (o.flavor.truth b).toList = text
    simp only [List.mem_cons, List.not_mem_nil, or_false]
    rintro (rfl | rfl | rfl | rfl)
    all_goals exact spares_of_start ht (by decide) (by decide) ⟨_, _, rfl, by decide, by decide⟩
  | number n negative ds _ hds => exact spares_number ht negative hds
  | string s => exact spares_string ht o _

theorem spares_placeholder (ht : t.IsClause) (f : Flavor) (n : Nat) :
    t.Spares (f.placeholder n).toList := by
  have hdigits := Decimal.isPlain_toDigits n
  have hform : (f.placeholder n).toList ∈
      [['?'], '$' :: Nat.toDigits 10 n, '@' :: 'p' :: Nat.toDigits 10 n,
        ':' :: Nat.toDigits 10 n] := by
    cases f <;> simp [Flavor.placeholder]
  revert hform
  generalize (f.placeholder n).toList = text
  simp only [List.mem_cons, List.not_mem_nil, or_false]
  rintro (rfl | rfl | rfl | rfl)
  · exact spares_of_start ht (by decide) (by decide) ⟨'?', [], rfl, by decide, by decide⟩
  · exact spares_of_start ht (by decide) (by decide) (stop_of_plain ['$'] hdigits)
  · exact spares_of_start ht (by decide) (by decide) (stop_of_plain ['@', 'p'] hdigits)
  · exact spares_of_start ht (by decide) (by decide) (stop_of_plain [':'] hdigits)

end Trim

end DynamicSql
