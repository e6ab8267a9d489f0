import DynamicSql.Proofs.Template.TextWidth

/-!
Quotes and markers in a text. Where a reader stands with respect to quotes is seen from the
characters before it alone, and a stretch of text in which no marker starts outside of quotes is one
part as it is (`ofChars_static`).
-/

namespace DynamicSql

/-- Outside of quotes, inside of one, or behind a backslash in one. -/
inductive QuoteState where
  | outside
  | inside (quote : Char)
  | escaped (quote : Char)
  deriving DecidableEq, Repr

namespace QuoteState

def next : QuoteState → Char → QuoteState
  | .outside, c => if c = '\'' ∨ c = '"' ∨ c = '`' then .inside c else .outside
  | .inside quote, c =>
    if c = '\\' then .escaped quote else if c = quote then .outside else .inside quote
  | .escaped quote, _ => .inside quote

def after (s : QuoteState) (cs : List Char) : QuoteState :=
  cs.foldl next s

theorem after_append (s : QuoteState) (cs ds : List Char) :
    s.after (cs ++ ds) = (s.after cs).after ds :=
  List.foldl_append

/-- The state that the open quote stands for. -/
def ofQuote : Option Char → QuoteState
  | none => .outside
  | some quote => .inside quote

end QuoteState

def StartsMarker (cs : List Char) : Prop :=
  ['#', '{'] <+: cs ∨ ['$', '{'] <+: cs

instance (cs : List Char) : Decidable (StartsMarker cs) :=
  inferInstanceAs (Decidable (_ ∨ _))

theorem startsMarker_opening (mark : Mark) (body : List Char) :
    StartsMarker (mark.opening.toList ++ body) := by
  cases mark with
  | bound => exact .inl ⟨body, rfl⟩
  | raw => exact .inr ⟨body, rfl⟩

theorem StartsMarker.exists_opening {cs : List Char} (h : StartsMarker cs) :
    ∃ mark : Mark, ∃ body, cs = mark.opening.toList ++ body := by
  rcases h with ⟨body, rfl⟩ | ⟨body, rfl⟩
  · exact ⟨.bound, body, rfl⟩
  · exact ⟨.raw, body, rfl⟩

theorem StartsMarker.append {cs : List Char} (h : StartsMarker cs) (more : List Char) :
    StartsMarker (cs ++ more) :=
  h.imp (·.trans (List.prefix_append cs more)) (·.trans (List.prefix_append cs more))

/-- No marker starts outside of quotes. -/
def IsUnmarked (s : QuoteState) (cs : List Char) : Prop :=
  ∀ i ≤ cs.length, s.after (cs.take i) = .outside → ¬StartsMarker (cs.drop i)

instance (s : QuoteState) (cs : List Char) : Decidable (IsUnmarked s cs) :=
  inferInstanceAs (Decidable (∀ i ≤ cs.length, _))

theorem isUnmarked_nil (s : QuoteState) : IsUnmarked s [] := by
  simp [IsUnmarked, StartsMarker]

theorem isUnmarked_cons {s : QuoteState} {c : Char} {cs : List Char} :
    IsUnmarked s (c :: cs) ↔
      (s = .outside → ¬StartsMarker (c :: cs)) ∧ IsUnmarked (s.next c) cs := by
  constructor
  · intro h
    refine ⟨h 0 (Nat.zero_le _), ?_⟩
    intro i hi
    exact h (i + 1) (Nat.succ_le_succ hi)
  · intro ⟨hstart, hrest⟩ i hi
    cases i with
    | zero => exact hstart
    | succ i => exact hrest i (Nat.le_of_succ_le_succ hi)

namespace TextPart

theorem startsMarker_of_mark? {c : Char} {cs body : List Char} {quote : Option Char} {m : Mark}
    (h : mark? quote c cs = some (m, body)) : quote = none ∧ StartsMarker (c :: cs) := by
  unfold mark? at h
  split at h
  · exact ⟨rfl, .inl ⟨_, rfl⟩⟩
  · exact ⟨rfl, .inr ⟨_, rfl⟩⟩
  · cases h

theorem isQuote_iff {c : Char} : isQuote c = true ↔ c = '\'' ∨ c = '"' ∨ c = '`' := by
  simp [isQuote, or_assoc]

section Next

variable {quote : Option Char} {c : Char}

theorem next_ofQuote_quote (hescape : ¬(c = '\\' ∧ quote.isSome)) (hc : isQuote c = true) :
    (QuoteState.ofQuote quote).next c = .ofQuote (afterQuote quote c) := by
  cases quote with
  | none => simp [QuoteState.ofQuote, QuoteState.next, afterQuote, isQuote_iff.1 hc]
  | some q =>
    have hne : c ≠ '\\' := by simpa using hescape
    simp only [QuoteState.ofQuote, QuoteState.next, afterQuote, if_neg hne, eq_comm (a := q)]
    split <;> rfl

theorem next_ofQuote_plain (hquote : ∀ q ∈ quote, isQuote q = true)
    (hescape : ¬(c = '\\' ∧ quote.isSome)) (hc : ¬isQuote c = true) :
    (QuoteState.ofQuote quote).next c = .ofQuote quote := by
  cases quote with
  | none => simp [QuoteState.ofQuote, QuoteState.next, mt isQuote_iff.2 hc]
  | some q =>
    have hne : c ≠ '\\' := by simpa using hescape
    have hq : c ≠ q := by
      rintro rfl
      exact hc (hquote _ rfl)
    simp [QuoteState.ofQuote, QuoteState.next, hne, hq]

theorem isQuote_of_afterQuote (hquote : ∀ q ∈ quote, isQuote q = true) (hc : isQuote c = true) :
    ∀ q ∈ afterQuote quote c, isQuote q = true := by
  intro q hq
  unfold afterQuote at hq
  split at hq
  · cases hq
    exact hc
  · split at hq
    · cases hq
    · cases hq
      exact hquote _ rfl

end Next

/-- A stretch of text, unless it is empty. -/
def plain : List Char → List TextPart
  | [] => []
  | c :: cs => [.text (c :: cs)]

section Static

variable {quote : Option Char} {cs rest : List Char}

theorem isQuote_of_mem_none : ∀ q ∈ (none : Option Char), isQuote q = true :=
  fun q hq => absurd hq (Option.not_mem_none q)

theorem ofChars_opening (mark : Mark) (body : List Char) :
    ofChars none (mark.opening.toList ++ body) =
      match body.dropWhile (· != '}') with
      | [] => [.unclosed mark]
      | _ :: rest => .marker mark (body.takeWhile (· != '}')) :: ofChars none rest := by
  cases mark with
  | bound => exact ofChars_marker (by simp) (by decide) rfl
  | raw => exact ofChars_marker (by simp) (by decide) rfl

/-- What stands in front of a marker does not run into it. -/
theorem cons_plain_append (hrest : rest = [] ∨ StartsMarker rest) (c : Char) (cs : List Char) :
    cons c (plain cs ++ ofChars none rest) = plain (c :: cs) ++ ofChars none rest := by
  cases cs with
  | cons d cs => rfl
  | nil =>
    obtain rfl | hstart := hrest
    · rw [ofChars]
      rfl
    · obtain ⟨mark, body, rfl⟩ := hstart.exists_opening
      rw [ofChars_opening]
      split <;> rfl

theorem mark?_append_startsMarker {c : Char} (h : mark? quote c cs = none)
    (hrest : rest = [] ∨ StartsMarker rest) : mark? quote c (cs ++ rest) = none := by
  cases cs with
  | cons d cs => exact mark?_append_none h rest
  | nil =>
    obtain rfl | hstart := hrest
    · exact h
    · obtain ⟨mark, body, rfl⟩ := hstart.exists_opening
      cases mark with
      | bound => simp [mark?, Mark.opening]
      | raw => simp [mark?, Mark.opening]

/-- Static text is kept as it is, up to the end of the text or to the marker behind it. -/
theorem ofChars_static (hquote : ∀ q ∈ quote, isQuote q = true)
    (h : IsUnmarked (.ofQuote quote) cs)
    (hrest : rest = [] ∨ (QuoteState.ofQuote quote).after cs = .outside ∧ StartsMarker rest) :
    ofChars quote (cs ++ rest) = plain cs ++ ofChars none rest := by
  have hstart := hrest.imp_right And.right
  fun_induction ofChars quote cs with
  | case1 quote =>
    cases quote with
    | none => rfl
    | some q =>
      obtain rfl | ⟨hend, _⟩ := hrest
      · simp [ofChars, plain]
      · cases hend
  | case2 quote c hescape =>
    obtain ⟨rfl, hsome⟩ := hescape
    obtain ⟨q, rfl⟩ := Option.isSome_iff_exists.1 hsome
    obtain rfl | ⟨hend, _⟩ := hrest
    · simp [ofChars, plain]
    · cases hend
  | case3 quote c hescape e r ih =>
    have hread := ofChars_escape hescape e (r ++ rest)
    obtain ⟨rfl, hsome⟩ := hescape
    obtain ⟨q, rfl⟩ := Option.isSome_iff_exists.1 hsome
    -- The two characters of an escape lead back into the quote.
    have hmore : IsUnmarked (.ofQuote (some q)) r := (isUnmarked_cons.1 (isUnmarked_cons.1 h).2).2
    rw [List.cons_append, List.cons_append, hread, ih hquote hmore hrest,
      cons_plain_append hstart, cons_plain_append hstart]
  | case4 quote c r hescape hc ih =>
    have hmore := (isUnmarked_cons.1 h).2
    change rest = [] ∨ ((QuoteState.ofQuote quote).next c).after r = .outside ∧ _ at hrest
    rw [next_ofQuote_quote hescape hc] at hmore hrest
    rw [List.cons_append, ofChars_quote hescape hc,
      ih (isQuote_of_afterQuote hquote hc) hmore hrest, cons_plain_append hstart]
  | case5 quote c r hescape hc hmark ih =>
    have hmore := (isUnmarked_cons.1 h).2
    change rest = [] ∨ ((QuoteState.ofQuote quote).next c).after r = .outside ∧ _ at hrest
    rw [next_ofQuote_plain hquote hescape hc] at hmore hrest
    rw [List.cons_append, ofChars_plain hescape hc (mark?_append_startsMarker hmark hstart),
      ih hquote hmore hrest, cons_plain_append hstart]
  | case6 quote c r _ _ mark body hmark | case7 quote c r _ _ mark body hmark =>
    obtain ⟨rfl, hstart⟩ := startsMarker_of_mark? hmark
    exact absurd hstart ((isUnmarked_cons.1 h).1 rfl)

/-- A text without markers outside of quotes is kept as it is. -/
theorem ofChars_of_isUnmarked (hquote : ∀ q ∈ quote, isQuote q = true)
    (h : IsUnmarked (.ofQuote quote) cs) : ofChars quote cs = plain cs := by
  have hwhole := ofChars_static hquote h (.inl rfl)
  rw [List.append_nil, ofChars, List.append_nil] at hwhole
  exact hwhole

end Static

end TextPart

/-- Such a text has no fragments but itself. -/
theorem textFragments_of_isUnmarked {s : String} (h : IsUnmarked .outside s.toList) :
    textFragments s = .ok (if s.isEmpty then [] else [.text s]) := by
  rw [textFragments, TextPart.ofChars_of_isUnmarked TextPart.isQuote_of_mem_none h]
  cases hs : s.toList with
  | nil =>
    have hempty : s = "" := by simpa using hs
    rw [hempty]
    rfl
  | cons c cs =>
    have hne : s.isEmpty = false := by
      rw [Bool.eq_false_iff]
      intro hempty
      simp_all
    rw [hne, TextPart.plain, ← hs, List.mapM_cons, List.mapM_nil, TextPart.fragment,
      String.ofList_toList]
    rfl

end DynamicSql
