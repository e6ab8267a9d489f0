import DynamicSql.Text.Blank
import Mathlib.Data.List.TakeWhile

/-!
Spans of characters and blanks at the ends of a text, with more characters behind it.
-/

namespace DynamicSql

theorem span_append {p : Char → Bool} {front rest : List Char} (hfront : ∀ c ∈ front, p c = true)
    (hrest : ∀ c ∈ rest.head?, p c = false) :
    (front ++ rest).takeWhile p = front ∧ (front ++ rest).dropWhile p = rest := by
  rw [List.takeWhile_append_of_pos hfront, List.dropWhile_append_of_pos hfront]
  cases rest with
  | nil => exact ⟨List.append_nil front, rfl⟩
  | cons c rest => simp [hrest c rfl]

theorem span_append_of_neg {p : Char → Bool} {d : Char} (hd : p d = false) (cs more : List Char) :
    (cs ++ d :: more).takeWhile p = cs.takeWhile p ∧
      (cs ++ d :: more).dropWhile p = cs.dropWhile p ++ d :: more := by
  induction cs with
  | nil => simp [hd]
  | cons c cs ih =>
    rw [List.cons_append, List.takeWhile_cons, List.takeWhile_cons, List.dropWhile_cons,
      List.dropWhile_cons, ih.1, ih.2]
    split
    · exact ⟨rfl, rfl⟩
    · exact ⟨rfl, rfl⟩

/-- What ends a span ends it whatever follows. -/
theorem span_append_of_cons {p : Char → Bool} {d : Char} {cs rest : List Char}
    (h : cs.dropWhile p = d :: rest) (more : List Char) :
    (cs ++ more).takeWhile p = cs.takeWhile p ∧
      (cs ++ more).dropWhile p = d :: (rest ++ more) := by
  have hlength := congrArg List.length (List.takeWhile_append_dropWhile (p := p) (l := cs))
  rw [List.length_append, h, List.length_cons] at hlength
  rw [List.takeWhile_append, if_neg (by omega), List.dropWhile_append, h]
  exact ⟨rfl, rfl⟩

section Until

variable {d : Char} {cs : List Char}

theorem forall_ne_of_not_mem (h : d ∉ cs) : ∀ c ∈ cs, (c != d) = true :=
  fun _ hc => bne_iff_ne.2 fun heq => h (heq ▸ hc)

/-- A span ends where a character comes for the first time. -/
theorem span_until (h : d ∉ cs) (more : List Char) :
    (cs ++ d :: more).takeWhile (· != d) = cs ∧
      (cs ++ d :: more).dropWhile (· != d) = d :: more :=
  span_append (forall_ne_of_not_mem h) (by simp)

theorem exists_until {e : Char} {rest : List Char} (h : cs.dropWhile (· != d) = e :: rest) :
    cs = cs.takeWhile (· != d) ++ d :: rest ∧ d ∉ cs.takeWhile (· != d) := by
  have hd := List.head?_dropWhile_not (· != d) cs
  have hcs := List.takeWhile_append_dropWhile (p := (· != d)) (l := cs)
  rw [h] at hd hcs
  have hend : e = d := by simpa using hd
  refine ⟨hend ▸ hcs.symm, ?_⟩
  intro hmem
  simpa using List.mem_takeWhile_imp hmem

theorem dropWhile_ne_eq_nil_iff : cs.dropWhile (· != d) = [] ↔ d ∉ cs := by
  rw [List.dropWhile_eq_nil_iff]
  refine ⟨?_, forall_ne_of_not_mem⟩
  intro h hd
  simpa using h d hd

end Until

namespace Text

/-- The code points of the blank characters. -/
def blankPoints : List Nat :=
  List.range' 9 5 ++ List.range' 0x2000 11 ++
    [0x20, 0x85, 0xA0, 0x1680, 0x2028, 0x2029, 0x202F, 0x205F, 0x3000]

theorem toNat_mem_blankPoints {c : Char} (h : isBlankChar c = true) : c.toNat ∈ blankPoints := by
  simp only [isBlankChar, Bool.or_eq_true, Bool.and_eq_true, decide_eq_true_eq, beq_iff_eq] at h
  simp only [blankPoints, List.mem_append, List.mem_range'_1, List.mem_cons, List.not_mem_nil]
  omega

theorem dropEndBlanks_append {c : Char} (hc : isBlankChar c = false) (cs more : List Char) :
    dropEndBlanks (cs ++ c :: more) = cs ++ c :: dropEndBlanks more := by
  have hspan := (span_append_of_neg hc more.reverse cs.reverse).2
  rw [dropEndBlanks, dropBlanks, List.reverse_append, List.reverse_cons, List.append_assoc,
    List.singleton_append, hspan, List.reverse_append, List.reverse_cons, List.reverse_reverse,
    List.append_assoc, List.singleton_append]
  rfl

theorem dropEndBlanks_spec (cs : List Char) :
    ∃ blanks, cs = dropEndBlanks cs ++ blanks ∧ ∀ c ∈ blanks, isBlankChar c = true := by
  refine ⟨(cs.reverse.takeWhile isBlankChar).reverse, ?_, fun c hc => ?_⟩
  · rw [dropEndBlanks, dropBlanks, ← List.reverse_append, List.takeWhile_append_dropWhile,
      List.reverse_reverse]
  · exact List.mem_takeWhile_imp (List.mem_reverse.1 hc)

/-- The blanks behind a text stay if something follows them. -/
theorem trimChars_append {c : Char} (hc : isBlankChar c = false) (cs more : List Char) :
    ∃ blanks more', trimChars (cs ++ c :: more) = trimChars cs ++ (blanks ++ c :: more') ∧
      ∀ b ∈ blanks, isBlankChar b = true := by
  obtain ⟨blanks, hblanks, hall⟩ := dropEndBlanks_spec (dropBlanks cs)
  refine ⟨blanks, dropEndBlanks more, ?_, hall⟩
  rw [trimChars, dropBlanks, (span_append_of_neg hc cs more).2, dropEndBlanks_append hc,
    ← List.append_assoc, trimChars, ← hblanks]
  rfl

/-- A text that starts and ends with other characters than blanks has none to cut off. -/
theorem trimChars_of_ends {c e : Char} (hc : isBlankChar c = false) (he : isBlankChar e = false)
    (cs : List Char) : trimChars (c :: (cs ++ [e])) = c :: (cs ++ [e]) := by
  have hstart : dropBlanks (c :: (cs ++ [e])) = c :: (cs ++ [e]) := by
    rw [dropBlanks, List.dropWhile_cons, hc]
    rfl
  have hend := dropEndBlanks_append he (c :: cs) []
  rw [trimChars, hstart]
  exact hend

theorem dropBlanks_of_forall {cs : List Char} (h : ∀ c ∈ cs, isBlankChar c = false) :
    dropBlanks cs = cs := by
  cases cs with
  | nil => rfl
  | cons c cs => simp [dropBlanks, h c]

theorem trimChars_of_forall {cs : List Char} (h : ∀ c ∈ cs, isBlankChar c = false) :
    trimChars cs = cs := by
  unfold trimChars dropEndBlanks
  rw [dropBlanks_of_forall h, dropBlanks_of_forall fun c hc => h c (List.mem_reverse.1 hc),
    List.reverse_reverse]

/-- Only blanks are cut off. -/
theorem mem_trimChars {c : Char} {cs : List Char} (hc : isBlankChar c = false) (h : c ∈ cs) :
    c ∈ trimChars cs := by
  obtain ⟨blanks, hsplit, hblanks⟩ := dropEndBlanks_spec (dropBlanks cs)
  rw [← List.takeWhile_append_dropWhile (p := isBlankChar) (l := cs)] at h
  have hstart : c ∈ dropBlanks cs := by
    refine (List.mem_append.1 h).resolve_left fun hmem => ?_
    rw [List.mem_takeWhile_imp hmem] at hc
    cases hc
  rw [hsplit] at hstart
  refine (List.mem_append.1 hstart).resolve_right fun hmem => ?_
  rw [hblanks c hmem] at hc
  cases hc

end Text

end DynamicSql
