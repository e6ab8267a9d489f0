import DynamicSql.Proofs.Expression.QuotedKey
import DynamicSql.Proofs.Parameter.IntegerText

/-!
Where the token of a path ends. The reader of tokens minds the quotes inside of brackets before it
knows what the brackets hold, and so it can run past the end of a path; but it ends with the path
wherever no quoted key has the quote in it that it stands between (`readPath_of_spells`).
-/

namespace DynamicSql

namespace Text

theorem exists_trimChars (cs : List Char) :
    ∃ front back, cs = front ++ (trimChars cs ++ back) ∧
      (∀ c ∈ front, isBlankChar c = true) ∧ ∀ c ∈ back, isBlankChar c = true := by
  obtain ⟨back, hback, hblank⟩ := dropEndBlanks_spec (dropBlanks cs)
  refine ⟨cs.takeWhile isBlankChar, back, ?_, fun _ hc => List.mem_takeWhile_imp hc, hblank⟩
  rw [trimChars, ← hback, dropBlanks, List.takeWhile_append_dropWhile]

end Text

namespace Path

/-- What stands in the brackets of a path. Inside of brackets nothing counts but the first closing
one. -/
def brackets (inside : Bool) : List Char → List (List Char)
  | [] => []
  | c :: cs =>
    if inside then brackets (c != ']') cs
    else if c = '[' then cs.takeWhile (· != ']') :: brackets true cs
    else brackets false cs

/-- Brackets that hold no quoted key with the quote in it that it stands between. -/
def HasNoOwnQuote (inner : List Char) : Prop :=
  ∀ q key, q = '\'' ∨ q = '"' → Text.trimChars inner = q :: key ++ [q] → q ∉ key

variable {cs front inner more : List Char} {s : Segment} {ss : List Segment}

theorem brackets_skip (h : '[' ∉ front) (more : List Char) :
    brackets false (front ++ more) = brackets false more := by
  induction front with
  | nil => rfl
  | cons c front ih =>
    rw [List.mem_cons, not_or] at h
    rw [List.cons_append, brackets, if_neg (by decide), if_neg (Ne.symm h.1), ih h.2]

theorem brackets_inside (h : ']' ∉ inner) (more : List Char) :
    brackets true (inner ++ ']' :: more) = brackets false more := by
  induction inner with
  | nil => rfl
  | cons c inner ih =>
    rw [List.mem_cons, not_or] at h
    rw [List.cons_append, brackets, if_pos rfl, bne_iff_ne.2 (Ne.symm h.1), ih h.2]

theorem brackets_bracket (h : ']' ∉ inner) (more : List Char) :
    brackets false ('[' :: inner ++ [']'] ++ more) = inner :: brackets false more := by
  rw [List.append_assoc, List.singleton_append, List.cons_append, brackets, if_neg (by decide),
    if_pos rfl, (span_until h more).1, brackets_inside h]

theorem IsName.bracket_not_mem (h : IsName cs) : '[' ∉ cs := by
  intro hmem
  have hname := (isName_iff.1 h).2 '[' hmem
  exact absurd hname (by decide)

theorem exists_head_of_spells (h : Spells cs ss) :
    ∃ c rest, cs = c :: rest ∧ isNameChar c = true := by
  obtain ⟨hname, -⟩ := h
  obtain ⟨hne, hchars⟩ := isName_iff.1 hname
  obtain ⟨c, rest, rfl⟩ := List.exists_cons_of_ne_nil hne
  exact ⟨c, _, rfl, hchars c List.mem_cons_self⟩

end Path

namespace Expression.Token

/-- The reader of a path goes over these characters whatever follows them, and stands there then. -/
def Passes (place : PathPlace) (cs : List Char) (after : PathPlace) : Prop :=
  ∀ more, readPath place (cs ++ more) = (cs ++ (readPath after more).1, (readPath after more).2)

variable {p q r : PathPlace} {cs ds inner rest : List Char} {s : Segment} {ss : List Segment}

theorem Passes.nil : Passes p [] p :=
  fun _ => rfl

theorem Passes.append (h : Passes p cs q) (h' : Passes q ds r) : Passes p (cs ++ ds) r := by
  intro more
  rw [List.append_assoc, h, h']
  simp

theorem Passes.forall (h : ∀ c ∈ cs, Passes p [c] p) : Passes p cs p := by
  induction cs with
  | nil => exact .nil
  | cons c cs ih =>
    obtain ⟨hc, hcs⟩ := List.forall_mem_cons.1 h
    exact hc.append (ih hcs)

theorem passes_name (h : Path.IsName cs) : Passes .outside cs .outside :=
  readPath_name (Path.isName_iff.1 h).2

theorem passes_point : Passes .outside ['.'] .outside :=
  fun _ => rfl

theorem passes_open : Passes .outside ['['] .bracket :=
  fun _ => rfl

theorem passes_close : Passes .bracket [']'] .outside :=
  fun _ => rfl

theorem passes_quote {quote : Char} (h : quote = '\'' ∨ quote = '"') :
    Passes .bracket [quote] (.quoted quote) := by
  rcases h with rfl | rfl
  · exact fun _ => rfl
  · exact fun _ => rfl

theorem passes_quoted {quote : Char} (h : quote ∉ cs) :
    Passes (.quoted quote) (cs ++ [quote]) .bracket := by
  intro more
  rw [List.append_assoc, List.singleton_append, readPath_quoted h]
  simp

theorem passes_inside {c : Char} (h : c ∉ ['\'', '"', ']']) : Passes .bracket [c] .bracket := by
  intro more
  simp only [List.mem_cons, List.not_mem_nil, or_false, not_or] at h
  simp [readPath, h]

theorem passes_blanks (h : ∀ c ∈ cs, Text.isBlankChar c = Bool.true) :
    Passes .bracket cs .bracket := by
  refine .forall fun c hc => passes_inside fun hmem => ?_
  have hblank := h c hc
  revert hblank
  fin_cases hmem
  all_goals decide

theorem passes_digits (h : ∀ c ∈ cs, c.isDigit = Bool.true) : Passes .bracket cs .bracket := by
  refine .forall fun c hc => passes_inside fun hmem => ?_
  have hdigit := h c hc
  revert hdigit
  fin_cases hmem
  all_goals decide

theorem passes_unsigned {i : Nat} (h : Decimal.Unsigned cs i) : Passes .bracket cs .bracket := by
  obtain ⟨plus, ds, hplus, rfl, hdigits, -⟩ := h.eq_plus_append
  have hsign : Passes .bracket plus .bracket := by
    rcases hplus with rfl | rfl
    · exact .nil
    · exact passes_inside (by decide)
  exact hsign.append (passes_digits hdigits)

/-- The blanks around a quoted key or an index do not count. -/
theorem passes_inner (h : Path.Inner (Text.trimChars inner) s) (hquote : Path.HasNoOwnQuote inner) :
    Passes .bracket inner .bracket := by
  obtain ⟨front, back, hinner, hfront, hback⟩ := Text.exists_trimChars inner
  have htrimmed : Passes .bracket (Text.trimChars inner) .bracket := by
    generalize htrim : Text.trimChars inner = content at h
    cases h with
    | @quoted quote hq key =>
      have hkey := hquote quote key hq htrim
      exact (passes_quote hq).append (passes_quoted hkey)
    | index h _ => exact passes_unsigned h
  rw [hinner]
  exact (passes_blanks hfront).append (htrimmed.append (passes_blanks hback))

theorem passes_steps (h : Path.Steps cs ss)
    (hquote : ∀ inner ∈ Path.brackets Bool.false cs, Path.HasNoOwnQuote inner) :
    Passes .outside cs .outside := by
  induction h with
  | nil => exact .nil
  | @cons cs more s ss hstep _ ih =>
    cases hstep with
    | name hname =>
      have hfront : '[' ∉ '.' :: _ :=
        List.not_mem_cons_of_ne_of_not_mem (by decide) hname.bracket_not_mem
      rw [Path.brackets_skip hfront] at hquote
      exact (passes_point.append (passes_name hname)).append (ih hquote)
    | @bracket point inner s hpoint hclose h =>
      have hfront : '[' ∉ point := by rcases hpoint with rfl | rfl <;> decide
      rw [List.append_assoc, List.append_assoc, Path.brackets_skip hfront, ← List.append_assoc,
        Path.brackets_bracket hclose, List.forall_mem_cons] at hquote
      have hpassed : Passes .outside point .outside := by
        rcases hpoint with rfl | rfl
        · exact .nil
        · exact passes_point
      have hbracket : Passes .outside ('[' :: inner ++ [']']) .outside :=
        (passes_open.append (passes_inner h hquote.1)).append passes_close
      rw [List.append_assoc point]
      exact (hpassed.append hbracket).append (ih hquote.2)

theorem readPath_of_isOff (hrest : ∀ c ∈ rest.head?, Path.IsOff c) :
    readPath .outside rest = ([], rest) := by
  cases rest with
  | nil => rfl
  | cons c rest =>
    have hc := hrest c rfl
    simp [readPath, hc.noName, hc.noBracket, hc.noPoint]

/-- The token of a path ends with the path in front of whatever cannot belong to it. -/
theorem readPath_of_spells (h : Path.Spells cs ss)
    (hquote : ∀ inner ∈ Path.brackets Bool.false cs, Path.HasNoOwnQuote inner)
    (hrest : ∀ c ∈ rest.head?, Path.IsOff c) : readPath .outside (cs ++ rest) = (cs, rest) := by
  obtain ⟨hname, hmore⟩ := h
  rw [Path.brackets_skip hname.bracket_not_mem] at hquote
  have hpassed := (passes_name hname).append (passes_steps hmore hquote)
  rw [hpassed, readPath_of_isOff hrest, List.append_nil]

end Expression.Token

end DynamicSql
