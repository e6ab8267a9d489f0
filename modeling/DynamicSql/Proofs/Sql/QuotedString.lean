import DynamicSql.Sql.Literal

/-!
Reading a quoted string back. The reader is the one a flavor uses itself, and whatever text is
written as a literal with doubled quotes is read as that text, up to the end of the literal and
no further.
-/

namespace DynamicSql

namespace QuotedString

def push (c : Char) (read : List Char × List Char) : List Char × List Char :=
  (c :: read.1, read.2)

/-- Reads on from behind the opening quote, and gives the content and what is left behind the
quote that ends it. Where a backslash escapes, `unescape` says what the character after it
stands for. -/
def read? (unescape : Option (Char → Char)) : List Char → Option (List Char × List Char)
  | [] => none
  | '\'' :: '\'' :: cs => (read? unescape cs).map (push '\'')
  | '\'' :: cs => some ([], cs)
  | '\\' :: c :: cs =>
    match unescape with
    | some f => (read? unescape cs).map (push (f c))
    | none => (read? unescape (c :: cs)).map (push '\\')
  | c :: cs => (read? unescape cs).map (push c)

theorem read?_close (unescape : Option (Char → Char)) (rest : List Char)
    (h : rest.head? ≠ some '\'') : read? unescape ('\'' :: rest) = some ([], rest) := by
  cases rest with
  | nil => rfl
  | cons c cs =>
    have hc : c ≠ '\'' := fun e => h (congrArg some e)
    simp [read?, hc]

theorem read?_plain (unescape : Option (Char → Char)) (c : Char) (cs : List Char)
    (hq : c ≠ '\'') (hb : c = '\\' → unescape = none) :
    read? unescape (c :: cs) = (read? unescape cs).map (push c) := by
  by_cases hc : c = '\\'
  · rw [hb hc, hc]
    cases cs with
    | nil => rfl
    | cons d cs => rfl
  · simp [read?, hq, hc]

/-- An encoding that is read back character by character is read back as a whole, if no further
quote follows. -/
theorem read?_flatMap {unescape : Option (Char → Char)} {encode : Char → List Char}
    (hencode : ∀ c cs, read? unescape (encode c ++ cs) = (read? unescape cs).map (push c))
    (s rest : List Char) (h : rest.head? ≠ some '\'') :
    read? unescape (s.flatMap encode ++ '\'' :: rest) = some (s, rest) := by
  induction s with
  | nil => exact read?_close unescape rest h
  | cons c s ih =>
    rw [List.flatMap_cons, List.append_assoc, hencode, ih]
    rfl

end QuotedString

namespace Flavor

/-- Where a backslash escapes, it stands for the character after it. -/
def unescape (f : Flavor) : Option (Char → Char) :=
  if f.backslashEscapes then some id else none

/-- Reads a string from its beginning; there may be a mark for national characters. -/
def readString? (f : Flavor) : List Char → Option (List Char × List Char)
  | 'N' :: '\'' :: cs => QuotedString.read? f.unescape cs
  | '\'' :: cs => QuotedString.read? f.unescape cs
  | _ => none

theorem readString?_stringMark (f : Flavor) (cs : List Char) :
    f.readString? ((f.stringMark false).toList ++ '\'' :: cs) =
      QuotedString.read? f.unescape cs := by
  cases f <;> rfl

theorem read?_doubledChar (f : Flavor) (c : Char) (cs : List Char) :
    QuotedString.read? f.unescape (doubledChar f c ++ cs) =
      (QuotedString.read? f.unescape cs).map (QuotedString.push c) := by
  unfold doubledChar
  split
  · next hq =>
    subst hq
    rfl
  · next hq =>
    split
    · next hb =>
      have hu : f.unescape = some id := by simp [unescape, hb.2]
      rw [hb.1, hu]
      rfl
    · next hb =>
      apply QuotedString.read?_plain _ _ _ hq
      intro hc
      simp only [hc, true_and] at hb
      simp [unescape, hb]

/-- A text cannot end its own literal early, leave it open or change its content: the flavor
reads the literal as that text, and what follows the literal is left unread. -/
theorem readString?_literal (f : Flavor) (s rest : String) (h : rest.toList.head? ≠ some '\'') :
    ∃ literal, (Options.mk f .doubled).literal (.text s) = .ok literal ∧
      f.readString? (literal ++ rest).toList = some (s.toList, rest.toList) := by
  refine ⟨(Options.mk f .doubled).quote s, rfl, ?_⟩
  have hshape : ((Options.mk f .doubled).quote s ++ rest).toList =
      (f.stringMark false).toList ++
        '\'' :: (s.toList.flatMap (doubledChar f) ++ '\'' :: rest.toList) := by
    have hstyle : (EscapeStyle.doubled == EscapeStyle.backslash) = false := rfl
    simp [Options.quote, hstyle, Options.escapeChar]
  rw [hshape, readString?_stringMark]
  exact QuotedString.read?_flatMap (read?_doubledChar f) s.toList rest.toList h

/-- A text that is made to break out of its literal. -/
theorem readString?_literal_breakout :
    " LIMIT 1".toList.head? ≠ some '\'' ∧
      ∃ literal, (Options.mk .mySql .doubled).literal (.text "\\' OR 1=1 -- \\") = .ok literal ∧
        Flavor.mySql.readString? (literal ++ " LIMIT 1").toList =
          some ("\\' OR 1=1 -- \\".toList, " LIMIT 1".toList) :=
  ⟨by decide, readString?_literal .mySql "\\' OR 1=1 -- \\" " LIMIT 1" (by decide)⟩

end Flavor

end DynamicSql
