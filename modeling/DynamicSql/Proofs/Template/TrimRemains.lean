import DynamicSql.Proofs.Template.TrimPlaces

/-!
What trimming leaves of a text. The blanks at an end go before the word there is cut off, so those
that the word kept apart from the rest stay. They are seen to if a word is cut off at the other end
as well and nothing else is left: then blanks alone get their decoration (`apply_decorates`).
-/

namespace DynamicSql

namespace Trim

variable {words : List (List Char)} {word cs found rest front back first between last : List Char}

/-! Words -/

/-- The letters are those of the word, in any ASCII case. -/
structure Matches (word found : List Char) : Prop where
  ne_nil : word ≠ []
  letters : found.map Char.toLower = word.map Char.toLower

theorem Matches.length_eq (h : Matches word found) : found.length = word.length := by
  have hlength := congrArg List.length h.letters
  rwa [List.length_map, List.length_map] at hlength

theorem Matches.found_ne_nil (h : Matches word found) : found ≠ [] := by
  rintro rfl
  exact h.ne_nil (List.length_eq_zero_iff.1 h.length_eq.symm)

theorem afterWord?_eq_some_iff :
    afterWord? word cs = some rest ↔ ∃ found, cs = found ++ rest ∧ Matches word found := by
  constructor
  · intro h
    have hrest := (length_of_afterWord? h).2
    unfold afterWord? at h
    split at h
    · next hword =>
      refine ⟨cs.take word.length, ?_, hword.1, hword.2⟩
      rw [hrest, List.take_append_drop]
    · cases h
  · rintro ⟨found, rfl, hword⟩
    rw [afterWord?, ← hword.length_eq, List.take_left, List.drop_left,
      if_pos ⟨hword.ne_nil, hword.letters⟩]

/-- The first of the words that the text begins with is found there, in front of the rest. -/
inductive FirstWord : List (List Char) → List Char → List Char → Prop
  | here {word : List Char} {words : List (List Char)} {found rest : List Char}
      (hword : Matches word found) : FirstWord (word :: words) found rest
  | later {word : List Char} {words : List (List Char)} {found rest : List Char}
      (hnot : ∀ a b, found ++ rest = a ++ b → ¬Matches word a)
      (hfirst : FirstWord words found rest) : FirstWord (word :: words) found rest

theorem FirstWord.dropWord_eq (h : FirstWord words found rest) :
    dropWord words (found ++ rest) = rest := by
  induction h with
  | here hword => exact dropWord_of_some (afterWord?_eq_some_iff.2 ⟨_, rfl, hword⟩)
  | later hnot _ ih =>
    rw [dropWord_of_none, ih]
    refine Option.eq_none_iff_forall_ne_some.2 fun b hb => ?_
    obtain ⟨a, heq, hword⟩ := afterWord?_eq_some_iff.1 hb
    exact hnot a b heq hword

theorem firstWord_or_not (words : List (List Char)) (cs : List Char) :
    (∃ found rest, cs = found ++ rest ∧ FirstWord words found rest) ∨
      ∀ word ∈ words, ∀ a b, cs = a ++ b → ¬Matches word a := by
  induction words with
  | nil => exact .inr fun _ hword => absurd hword List.not_mem_nil
  | cons word words ih =>
    by_cases hword : ∃ a b, cs = a ++ b ∧ Matches word a
    · obtain ⟨a, b, rfl, hmatches⟩ := hword
      exact .inl ⟨a, b, rfl, .here hmatches⟩
    · have hnot (a b : List Char) (hcs : cs = a ++ b) : ¬Matches word a :=
        fun hmatches => hword ⟨a, b, hcs, hmatches⟩
      obtain ⟨found, rest, rfl, hfirst⟩ | hnone := ih
      · exact .inl ⟨found, rest, rfl, .later hnot hfirst⟩
      · exact .inr (List.forall_mem_cons.2 ⟨hnot, hnone⟩)

theorem dropWord_of_not_matches
    (h : ∀ word ∈ words, ∀ a b, cs = a ++ b → ¬Matches word a) : dropWord words cs = cs := by
  have hnone : words.findSome? (afterWord? · cs) = none := by
    refine List.findSome?_eq_none_iff.2 fun word hword => ?_
    refine Option.eq_none_iff_forall_ne_some.2 fun rest hrest => ?_
    obtain ⟨found, hcs, hmatches⟩ := afterWord?_eq_some_iff.1 hrest
    exact h word hword found rest hcs hmatches
  rw [dropWord, hnone]
  rfl

theorem dropWord_cases (words : List (List Char)) (cs : List Char) :
    dropWord words cs = cs ∨
      ∃ found, cs = found ++ dropWord words cs ∧ FirstWord words found (dropWord words cs) := by
  obtain ⟨found, rest, rfl, hfirst⟩ | hnone := firstWord_or_not words cs
  · rw [hfirst.dropWord_eq]
    exact .inr ⟨found, rfl, hfirst⟩
  · exact .inl (dropWord_of_not_matches hnone)

theorem FirstWord.found_ne_nil (h : FirstWord words found rest) : found ≠ [] := by
  induction h with
  | here hword => exact hword.found_ne_nil
  | later _ _ ih => exact ih

/-! Cuts -/

def Blanks (cs : List Char) : Prop :=
  ∀ c ∈ cs, Text.isBlankChar c = true

theorem Blanks.reverse (h : Blanks cs) : Blanks cs.reverse :=
  fun c hc => h c (List.mem_reverse.1 hc)

theorem not_startsInk_of_blanks (h : Blanks between) (hne : between ≠ []) (cs : List Char) :
    ¬StartsInk (between ++ cs) := by
  rintro ⟨c, ds, heq, hc⟩
  cases between with
  | nil => contradiction
  | cons b between =>
    injection heq with hbc
    rw [← hbc, h b List.mem_cons_self] at hc
    cases hc

theorem dropBlanks_of_startsInk (hfront : Blanks front) (hink : StartsInk cs) :
    Text.dropBlanks (front ++ cs) = cs := by
  rw [dropBlanks_append hink, Text.dropBlanks, List.dropWhile_eq_nil_iff.2 hfront, List.nil_append]

theorem dropBlanks_cases (cs : List Char) :
    ∃ front, Blanks front ∧ cs = front ++ Text.dropBlanks cs ∧
      (Text.dropBlanks cs = [] ∨ StartsInk (Text.dropBlanks cs)) := by
  refine ⟨cs.takeWhile Text.isBlankChar, fun c hc => List.mem_takeWhile_imp hc,
    List.takeWhile_append_dropWhile.symm, ?_⟩
  have hhead := List.head?_dropWhile_not Text.isBlankChar cs
  rw [Text.dropBlanks]
  cases hcs : cs.dropWhile Text.isBlankChar with
  | nil => exact .inl rfl
  | cons c ds =>
    rw [hcs] at hhead
    exact .inr ⟨c, ds, rfl, by simpa using hhead⟩

theorem cut_of_firstWord (hfront : Blanks front) (hink : StartsInk first)
    (hfirst : FirstWord words first rest) : cut words (front ++ (first ++ rest)) = rest := by
  rw [cut, dropBlanks_of_startsInk hfront (hink.append rest), hfirst.dropWord_eq]

/-- Blanks stand where a text was cut only if a word was cut off there. -/
theorem exists_firstWord_of_cut (hcut : cut words cs = between ++ rest) (hblanks : Blanks between)
    (hne : between ≠ []) :
    ∃ front first, cs = front ++ (first ++ (between ++ rest)) ∧ Blanks front ∧ StartsInk first ∧
      FirstWord words first (between ++ rest) := by
  obtain ⟨front, hfront, hcs, hstart⟩ := dropBlanks_cases cs
  obtain hsame | ⟨first, hfirst, hword⟩ := dropWord_cases words (Text.dropBlanks cs)
  · rw [← hsame, ← cut, hcut] at hstart
    have hnil := List.append_ne_nil_of_left_ne_nil hne rest
    exact absurd hstart (not_or.2 ⟨hnil, not_startsInk_of_blanks hblanks hne rest⟩)
  · rw [← cut, hcut] at hfirst hword
    refine ⟨front, first, hcs.trans (congrArg _ hfirst), hfront, ?_, hword⟩
    obtain ⟨c, ds, rfl⟩ := List.exists_cons_of_ne_nil hword.found_ne_nil
    obtain hnil | ⟨d, es, heq, hd⟩ := hstart
    · rw [hnil] at hfirst
      cases hfirst
    · rw [hfirst] at heq
      injection heq with hcd
      exact ⟨c, ds, rfl, hcd ▸ hd⟩

/-! Texts of words and blanks alone -/

/-- The text has a word at either end, that is cut off with the blanks around the text, and nothing
but blanks in between. -/
structure HollowAt (t : Trim) (front first between last back : List Char) : Prop where
  blankFront : Blanks front
  inkFirst : StartsInk first
  firstWord : FirstWord t.leadingWords first (between ++ (last ++ back))
  blanks : Blanks between
  ne_nil : between ≠ []
  lastWord : FirstWord t.trailingWords last.reverse between.reverse
  inkLast : StartsInk last.reverse
  blankBack : Blanks back

/-- Only these blanks are left between the words of the text. -/
def IsHollow (t : Trim) (cs between : List Char) : Prop :=
  ∃ front first last back, cs = front ++ (first ++ (between ++ (last ++ back))) ∧
    t.HollowAt front first between last back

variable {t : Trim}

theorem HollowAt.core_eq (h : t.HollowAt front first between last back) :
    t.core (front ++ (first ++ (between ++ (last ++ back)))) = between := by
  have hreverse : (between ++ (last ++ back)).reverse =
      back.reverse ++ (last.reverse ++ between.reverse) := by
    rw [List.reverse_append, List.reverse_append, List.append_assoc]
  rw [core_eq_cut, cut_of_firstWord h.blankFront h.inkFirst h.firstWord, hreverse,
    cut_of_firstWord h.blankBack.reverse h.inkLast h.lastWord, List.reverse_reverse]

theorem isHollow_iff :
    t.IsHollow cs between ↔ t.core cs = between ∧ between ≠ [] ∧ Blanks between := by
  constructor
  · rintro ⟨front, first, last, back, rfl, h⟩
    exact ⟨h.core_eq, h.ne_nil, h.blanks⟩
  · rintro ⟨hcore, hne, hblanks⟩
    -- a word is cut off at the end, as blanks are left there
    have hneEnd : between.reverse ≠ [] := mt List.reverse_eq_nil_iff.1 hne
    have hcutEnd : cut t.trailingWords (cut t.leadingWords cs).reverse = between.reverse ++ [] := by
      rw [← hcore, core_eq_cut, List.reverse_reverse, List.append_nil]
    obtain ⟨back, last, hend, hback, hlast, hlastWord⟩ :=
      exists_firstWord_of_cut hcutEnd hblanks.reverse hneEnd
    rw [List.append_nil] at hend hlastWord
    -- and one in front, as the same blanks are left behind it
    have hcutStart : cut t.leadingWords cs = between ++ (last.reverse ++ back.reverse) := by
      rw [← List.reverse_reverse (cut t.leadingWords cs), hend]
      simp
    obtain ⟨front, first, hcs, hfront, hfirst, hfirstWord⟩ :=
      exists_firstWord_of_cut hcutStart hblanks hne
    refine ⟨front, first, last.reverse, back.reverse, hcs, ?_⟩
    rw [← List.reverse_reverse last] at hlast hlastWord
    exact ⟨hfront, hfirst, hfirstWord, hblanks, hne, hlastWord, hlast, hback.reverse⟩

theorem IsHollow.overrides_ne_nil (h : t.IsHollow cs between) :
    t.leadingOverrides ≠ [] ∧ t.trailingOverrides ≠ [] := by
  obtain ⟨front, first, last, back, _, h⟩ := h
  have hfirst := h.firstWord
  have hlast := h.lastWord
  constructor
  · intro hnil
    rw [leadingWords, hnil] at hfirst
    cases hfirst
  · intro hnil
    rw [trailingWords, hnil] at hlast
    cases hlast

/-! Decorations -/

theorem apply_of_core_eq_nil {body : String} (h : t.core body.toList = []) :
    t.apply body = "" := by
  rw [apply, h]

theorem apply_of_core_ne_nil {body : String} (h : t.core body.toList ≠ []) :
    t.apply body =
      t.leading.getD "" ++ String.ofList (t.core body.toList) ++ t.trailing.getD "" := by
  rw [apply]
  split
  · contradiction
  · rfl

/-- Trimming leaves nothing, or decorates what is left: a text with more in it than blanks, or the
blanks between two words that were cut off. For these there have to be words for both ends. -/
theorem apply_decorates (t : Trim) (body : String) :
    (t.apply body = "" ∨
      ∃ core, core ≠ "" ∧ t.apply body = t.leading.getD "" ++ core ++ t.trailing.getD "" ∧
        (Text.isBlank core = false ∨ t.IsHollow body.toList core.toList)) ∧
    ∀ core : String, t.IsHollow body.toList core.toList →
      t.apply body = t.leading.getD "" ++ core ++ t.trailing.getD "" ∧
        t.leadingOverrides ≠ [] ∧ t.trailingOverrides ≠ [] := by
  constructor
  · by_cases hnil : t.core body.toList = []
    · exact .inl (apply_of_core_eq_nil hnil)
    · refine .inr ⟨_, fun hempty => hnil ?_, apply_of_core_ne_nil hnil, ?_⟩
      · simpa using hempty
      · rw [or_iff_not_imp_left, Bool.not_eq_false, String.toList_ofList, isHollow_iff]
        intro hblank
        refine ⟨rfl, hnil, List.all_eq_true.1 ?_⟩
        rwa [Text.isBlank, String.toList_ofList] at hblank
  · intro core hhollow
    obtain ⟨hcore, hne, _⟩ := isHollow_iff.1 hhollow
    refine ⟨?_, hhollow.overrides_ne_nil⟩
    rw [apply_of_core_ne_nil (hcore ▸ hne), hcore, String.ofList_toList]

/-- A conjunction and a comma around one blank, which becomes a clause of its own. -/
theorem apply_hollow :
    let t : Trim :=
      { leading := some "WHERE ", leadingOverrides := ["AND"], trailingOverrides := [","] }
    t.apply "AND ," = "WHERE  " ∧
      ¬(t.apply "AND ," = "" ∨
        ∃ core, t.apply "AND ," = t.leading.getD "" ++ core ++ t.trailing.getD "" ∧
          Text.isBlank core = false) := by
  intro t
  have happly : t.apply "AND ," = "WHERE  " := by decide
  refine ⟨happly, ?_⟩
  rintro (hempty | ⟨core, hcore, hink⟩)
  · rw [happly] at hempty
    revert hempty
    decide
  · rw [happly] at hcore
    have hblank : core = " " := by
      have htext : "WHERE " ++ " " = "WHERE " ++ core := by simpa [t] using hcore
      exact ((String.append_right_inj _).1 htext).symm
    rw [hblank] at hink
    cases hink

end Trim

end DynamicSql
