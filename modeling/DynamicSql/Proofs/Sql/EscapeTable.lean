import DynamicSql.Proofs.Sql.BackslashString

/-!
The escapes of the backslash style undone. Whatever the flavor, a literal in this style that is read
by the escape table of MySQL is the text that it was written for, and ends where the literal does
(`readTableString?_literal`), so that no two texts have one literal.
-/

namespace DynamicSql

/-- What a backslash and the character after it stand for by the rules of MySQL. -/
def unescapeByTable : Char → Char
  | '0' => '\x00'
  | 'b' => '\x08'
  | 'n' => '\n'
  | 'r' => '\r'
  | 't' => '\t'
  | 'Z' => '\x1a'
  | c => c

namespace QuotedString

/-- No escape of the encoder is read across its end. -/
theorem read?_backslashChar (f : Flavor) (c : Char) (cs : List Char) :
    read? (some unescapeByTable) (backslashChar f c ++ cs) =
      (read? (some unescapeByTable) cs).map (push c) := by
  by_cases hquote : c = '\''
  · rw [hquote, backslashChar_quote]
    split
    · rfl
    · rfl
  · unfold backslashChar
    split_ifs with _ _ _ _ _ _ _ hslash
    case neg => exact read?_plain _ c cs hquote fun e => absurd e hslash
    all_goals
      subst c
      rfl

end QuotedString

namespace Flavor

/-- Reads a string of the backslash style from its beginning: the mark of the flavor, an opening
quote, and then by the escape table up to the quote that ends it. -/
def readTableString? (f : Flavor) (cs : List Char) : Option (List Char × List Char) :=
  (((f.stringMark true).toList ++ ['\'']).isPrefixOf? cs).bind
    (QuotedString.read? (some unescapeByTable))

theorem readTableString?_stringMark (f : Flavor) (cs : List Char) :
    f.readTableString? ((f.stringMark true).toList ++ '\'' :: cs) =
      QuotedString.read? (some unescapeByTable) cs := by
  cases f <;> rfl

theorem readTableString?_quote (f : Flavor) (s rest : String) (h : rest.toList.head? ≠ some '\'') :
    f.readTableString? ((Options.mk f .backslash).quote s ++ rest).toList =
      some (s.toList, rest.toList) := by
  have hmark : (Options.mk f .backslash).mark = f.stringMark true := rfl
  have hescape : (Options.mk f .backslash).escapeChar = backslashChar f := rfl
  have hbody := QuotedString.read?_flatMap (QuotedString.read?_backslashChar f) s.toList rest.toList h
  rw [String.toList_append, Options.quote_toList, hmark, hescape, List.append_assoc, List.cons_append,
    List.append_assoc, List.singleton_append, readTableString?_stringMark, hbody]

/-- Nothing of a text is lost in the backslash style: by the escape table of MySQL its literal is
read as that text in every flavor, what follows the literal is left unread, and two texts never have
one literal. -/
theorem readTableString?_literal (f : Flavor) :
    (∀ s rest : String, rest.toList.head? ≠ some '\'' →
      ∃ literal, (Options.mk f .backslash).literal (.text s) = .ok literal ∧
        f.readTableString? (literal ++ rest).toList = some (s.toList, rest.toList)) ∧
    ∀ s t : String, s ≠ t →
      (Options.mk f .backslash).literal (.text s) ≠ (Options.mk f .backslash).literal (.text t) := by
  refine ⟨fun s rest h => ⟨_, rfl, f.readTableString?_quote s rest h⟩, ?_⟩
  intro s t hne heq
  have hquote : (Options.mk f .backslash).quote s = (Options.mk f .backslash).quote t :=
    Except.ok.inj heq
  have hs := f.readTableString?_quote s "" (by decide)
  have ht := f.readTableString?_quote t "" (by decide)
  rw [hquote, ht, Option.some.injEq, Prod.mk.injEq] at hs
  exact hne (String.toList_injective hs.1.symm)

/-- Backslashes and quotes next to each other and to the letters of the escapes, in the flavor that
doubles its quotes. -/
theorem readTableString?_literal_adjacent :
    let s := "\\n\n'\\'0\x00\\\\Z\x1a'"
    " 'x'".toList.head? ≠ some '\'' ∧ "\\n" ≠ "\n" ∧
      (∃ literal, (Options.mk .cql .backslash).literal (.text s) = .ok literal ∧
        Flavor.cql.readTableString? (literal ++ " 'x'").toList = some (s.toList, " 'x'".toList)) ∧
      (Options.mk .cql .backslash).literal (.text "\\n") ≠
        (Options.mk .cql .backslash).literal (.text "\n") := by
  intro s
  have h := readTableString?_literal .cql
  exact ⟨by decide, by decide, h.1 s _ (by decide), h.2 _ _ (by decide)⟩

end Flavor

end DynamicSql
