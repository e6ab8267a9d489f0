import DynamicSql.Proofs.Parameter.NumberText
import DynamicSql.Sql.Literal

/-!
The forms of literals. Whatever is proved about all literals is proved for these four.
-/

namespace DynamicSql

namespace Options

def mark (o : Options) : String :=
  o.flavor.stringMark (o.escape == .backslash)

theorem quote_toList (o : Options) (s : String) :
    (o.quote s).toList = o.mark.toList ++ '\'' :: (s.toList.flatMap o.escapeChar ++ ['\'']) := by
  simp [quote, mark]

inductive LiteralForm (o : Options) : Value → List Char → Prop where
  | null : LiteralForm o .null "NULL".toList
  | truth (b : Bool) : LiteralForm o (.bool b) (o.flavor.truth b).toList
  | number (n : Number) (negative : Bool) (ds : List Char) :
      n.text.toList = Decimal.signed negative ds → Decimal.IsPlain ds →
        LiteralForm o (.number n) (Decimal.signed negative ds)
  | string (s : String) :
      LiteralForm o (.text s) (o.mark.toList ++ '\'' :: (s.toList.flatMap o.escapeChar ++ ['\'']))

theorem literal_form {o : Options} {v : Value} {l : String} (h : o.literal v = .ok l) :
    LiteralForm o v l.toList := by
  cases v with
  | null =>
    cases h
    exact .null
  | bool b =>
    cases h
    exact .truth b
  | number n =>
    simp only [literal] at h
    split at h
    · next hn =>
      cases h
      rcases Number.text_eq_signed hn with ⟨negative, ds, htext, hds⟩
      rw [htext]
      exact .number n negative ds htext hds
    · contradiction
  | text s =>
    cases h
    rw [quote_toList]
    exact .string s
  | list items => contradiction
  | map entries => contradiction

end Options

end DynamicSql
