import DynamicSql.Proofs.Sql.LiteralForm
import DynamicSql.Proofs.Sql.QuotedString
import Mathlib.Tactic.SplitIfs

/-!
String literals in the backslash style, read by the rules of their flavor. Where the flavor takes
a backslash for an escape, or the literal is marked as an escape string, or quotes are doubled all
the same, every text stays inside its literal. In the other flavors the backslash in front of a
quote means nothing, so a text with a quote in it breaks its literal.
-/

namespace DynamicSql

namespace QuotedString

/-- Puts characters in front of what is read from the text behind them. -/
def prepend (cs : List Char) (read : List Char × List Char) : List Char × List Char :=
  (cs ++ read.1, read.2)

/-- A block of characters that is content of the string it stands in, whatever follows it. -/
def StaysInside (unescape : Option (Char → Char)) (block : List Char) : Prop :=
  ∃ content, ∀ cs, read? unescape (block ++ cs) = (read? unescape cs).map (prepend content)

variable {unescape : Option (Char → Char)}

theorem StaysInside.nil : StaysInside unescape [] := by
  refine ⟨[], fun cs => ?_⟩
  rw [List.nil_append]
  exact Option.map_id'.symm

theorem StaysInside.append {block block' : List Char} (h : StaysInside unescape block)
    (h' : StaysInside unescape block') : StaysInside unescape (block ++ block') := by
  obtain ⟨content, hread⟩ := h
  obtain ⟨content', hread'⟩ := h'
  refine ⟨content ++ content', fun cs => ?_⟩
  rw [List.append_assoc, hread, hread', Option.map_map]
  congr 1
  funext read
  simp [prepend]

theorem StaysInside.flatMap {encode : Char → List Char}
    (h : ∀ c, StaysInside unescape (encode c)) (s : List Char) :
    StaysInside unescape (s.flatMap encode) := by
  induction s with
  | nil => exact .nil
  | cons c s ih => exact (h c).append ih

/-- What stays inside a string can be closed by a quote. -/
theorem StaysInside.closed {block : List Char} (h : StaysInside unescape block) :
    ∃ content, read? unescape (block ++ ['\'']) = some (content, []) := by
  obtain ⟨content, hread⟩ := h
  refine ⟨content, ?_⟩
  rw [hread, read?_close unescape [] (by simp)]
  simp [prepend]

theorem staysInside_plain {c : Char} (hq : c ≠ '\'') (hb : c = '\\' → unescape = none) :
    StaysInside unescape [c] :=
  ⟨[c], fun cs => read?_plain unescape c cs hq hb⟩

theorem staysInside_escape (f : Char → Char) (c : Char) : StaysInside (some f) ['\\', c] :=
  ⟨[f c], fun _ => rfl⟩

theorem staysInside_doubled : StaysInside unescape ['\'', '\''] :=
  ⟨['\''], fun _ => rfl⟩

/-- Without escapes only a quote means anything. -/
theorem staysInside_of_no_quote {block : List Char} (h : '\'' ∉ block) :
    StaysInside none block := by
  induction block with
  | nil => exact .nil
  | cons c block ih =>
    have hc : c ≠ '\'' := fun e => h (e ▸ List.mem_cons_self)
    exact (staysInside_plain hc fun _ => rfl).append
      (ih fun hmem => h (List.mem_cons_of_mem c hmem))

end QuotedString

open QuotedString

theorem backslashChar_quote (f : Flavor) :
    backslashChar f '\'' = if f = .cql then ['\'', '\''] else ['\\', '\''] := rfl

/-- What is not a quote is written as it is or behind a backslash, and brings no quote with it. -/
theorem backslashChar_of_ne (f : Flavor) {c : Char} (h : c ≠ '\'') :
    (∃ d, d ≠ '\'' ∧ backslashChar f c = ['\\', d]) ∨
      (c ≠ '\\' ∧ backslashChar f c = [c]) := by
  unfold backslashChar
  split_ifs with _ _ _ _ _ _ _ hslash
  case neg => exact .inr ⟨hslash, rfl⟩
  all_goals exact .inl ⟨_, by decide, rfl⟩

theorem quote_not_mem_backslashChar (f : Flavor) {c : Char} (h : c ≠ '\'') :
    '\'' ∉ backslashChar f c := by
  obtain ⟨d, hd, henc⟩ | ⟨_, henc⟩ := backslashChar_of_ne f h
  · simp [henc, hd.symm]
  · simp [henc, h.symm]

/-- Under a rule with escapes every encoded character stays inside its string. -/
theorem staysInside_backslashChar (f : Flavor) (c : Char) :
    StaysInside (some id) (backslashChar f c) := by
  by_cases hc : c = '\''
  · rw [hc, backslashChar_quote]
    split
    · exact staysInside_doubled
    · exact staysInside_escape id '\''
  · obtain ⟨d, _, henc⟩ | ⟨hslash, henc⟩ := backslashChar_of_ne f hc
    · rw [henc]
      exact staysInside_escape id d
    · rw [henc]
      exact staysInside_plain hc fun e => absurd e hslash

/-- Without escapes CQL is safe, since there a quote is doubled. -/
theorem staysInside_backslashChar_cql (c : Char) : StaysInside none (backslashChar .cql c) := by
  by_cases hc : c = '\''
  · rw [hc]
    exact staysInside_doubled
  · exact staysInside_of_no_quote (quote_not_mem_backslashChar .cql hc)

theorem quote_not_mem_flatMap (f : Flavor) {s : List Char} (h : '\'' ∉ s) :
    '\'' ∉ s.flatMap (backslashChar f) := by
  intro hmem
  obtain ⟨c, hc, hq⟩ := List.mem_flatMap.1 hmem
  exact quote_not_mem_backslashChar f (fun e => h (e ▸ hc)) hq

theorem head?_backslashChar_ne (f : Flavor) (hf : f ≠ .cql) (c : Char) (cs : List Char) :
    (backslashChar f c ++ cs).head? ≠ some '\'' := by
  by_cases hc : c = '\''
  · simp [hc, backslashChar_quote, hf]
  · obtain ⟨d, _, henc⟩ | ⟨_, henc⟩ := backslashChar_of_ne f hc
    · simp [henc]
    · simp [henc, hc]

/-- Where neither a backslash escapes nor a quote is doubled, the first quote of a text ends its
literal, or is taken for the first half of a doubled one together with the closing quote. -/
theorem read?_none_of_quote {f : Flavor} (hf : f ≠ .cql) {s : List Char} (h : '\'' ∈ s)
    (content : List Char) :
    read? none (s.flatMap (backslashChar f) ++ ['\'']) ≠ some (content, []) := by
  obtain ⟨a, b, rfl, ha⟩ := List.eq_append_cons_of_mem h
  have hfront : '\'' ∉ a.flatMap (backslashChar f) ++ ['\\'] := by
    simp [quote_not_mem_flatMap f ha]
  obtain ⟨front, hread⟩ := staysInside_of_no_quote hfront
  have hbody : (a ++ '\'' :: b).flatMap (backslashChar f) ++ ['\''] =
      (a.flatMap (backslashChar f) ++ ['\\']) ++
        '\'' :: (b.flatMap (backslashChar f) ++ ['\'']) := by
    simp [backslashChar_quote, hf]
  rw [hbody, hread]
  cases b with
  | nil => simp [read?]
  | cons d b =>
    rw [List.flatMap_cons, List.append_assoc,
      read?_close none _ (head?_backslashChar_ne f hf d _)]
    simp [prepend]

namespace Flavor

/-- Reads a string from its beginning; in one that is marked as an escape string a backslash
escapes in any flavor. -/
def readEscapeString? (f : Flavor) : List Char → Option (List Char × List Char)
  | 'E' :: '\'' :: cs => QuotedString.read? (some id) cs
  | cs => f.readString? cs

theorem readEscapeString?_stringMark (f : Flavor) (cs : List Char) :
    f.readEscapeString? ((f.stringMark true).toList ++ '\'' :: cs) =
      QuotedString.read? (if f.backslashEscapes || f == .postgreSql then some id else none) cs := by
  cases f <;> rfl

/-- In the backslash style the literal of a text is one whole string of its flavor, which its last
character closes, except for the texts with a quote in the flavors that know no backslash escapes
and get none of their own: there the literal ends early or stays open. -/
theorem readEscapeString?_literal_iff (f : Flavor) (s : String) :
    ∃ literal, (Options.mk f .backslash).literal (.text s) = .ok literal ∧
      ((∃ content, f.readEscapeString? literal.toList = some (content, [])) ↔
        ¬(f ∈ [.sqlite, .sqlServer, .oracle] ∧ '\'' ∈ s.toList)) := by
  refine ⟨(Options.mk f .backslash).quote s, rfl, ?_⟩
  have hmark : (Options.mk f .backslash).mark = f.stringMark true := rfl
  have hescape : (Options.mk f .backslash).escapeChar = backslashChar f := rfl
  rw [Options.quote_toList, hmark, hescape, readEscapeString?_stringMark]
  by_cases hescapes : (f.backslashEscapes || f == .postgreSql) = true
  · rw [if_pos hescapes]
    have hf : f ∉ [.sqlite, .sqlServer, .oracle] := by
      cases f <;> simp [backslashEscapes] at hescapes ⊢
    have hclosed := (StaysInside.flatMap (staysInside_backslashChar f) s.toList).closed
    simp [hf, hclosed]
  · rw [if_neg hescapes]
    by_cases hcql : f = .cql
    · subst hcql
      have hclosed := (StaysInside.flatMap staysInside_backslashChar_cql s.toList).closed
      simp [hclosed]
    · have hf : f ∈ [.sqlite, .sqlServer, .oracle] := by
        cases f <;> simp [backslashEscapes] at hescapes hcql ⊢
      by_cases hquote : '\'' ∈ s.toList
      · simp [hf, hquote, read?_none_of_quote hcql hquote]
      · have hclosed := (staysInside_of_no_quote (quote_not_mem_flatMap f hquote)).closed
        simp [hquote, hclosed]

/-- A quote behind a backslash ends the literal where a backslash means nothing. -/
theorem readEscapeString?_literal_sqlite :
    ∃ literal, (Options.mk .sqlite .backslash).literal (.text "' OR 1=1 --") = .ok literal ∧
      Flavor.sqlite.readEscapeString? literal.toList = some (['\\'], " OR 1=1 --'".toList) ∧
      ¬∃ content, Flavor.sqlite.readEscapeString? literal.toList = some (content, []) := by
  have hread : Flavor.sqlite.readEscapeString? "'\\' OR 1=1 --'".toList =
      some (['\\'], " OR 1=1 --'".toList) := by decide
  refine ⟨"'\\' OR 1=1 --'", by rfl, hread, ?_⟩
  rw [hread]
  simp

end Flavor

end DynamicSql
