import DynamicSql.Proofs.Template.ParallelTexts
import DynamicSql.Proofs.Text.Blank

/-!
Where a trimming cuts the two texts of a body. Its override words are looked for in each of the
texts, so a word may run into a literal or a placeholder. Both texts are cut at the same places, out
of static texts alone, exactly if neither loses more at an end than the static text that it has
there (`exec_trim_parallel_iff`).
-/

namespace DynamicSql

namespace Trim

variable {words : List (List Char)} {word a b x y : List Char}

/-- What is left behind the blanks and the word at the start. -/
def cut (words : List (List Char)) (cs : List Char) : List Char :=
  dropWord words (Text.dropBlanks cs)

theorem dropWord_of_some {cs rest : List Char} (h : afterWord? word cs = some rest) :
    dropWord (word :: words) cs = rest := by
  rw [dropWord, List.findSome?_cons, h]
  rfl

theorem dropWord_of_none {cs : List Char} (h : afterWord? word cs = none) :
    dropWord (word :: words) cs = dropWord words cs := by
  rw [dropWord, List.findSome?_cons, h]
  rfl

theorem afterWord?_of_length_le (h : word.length ≤ a.length) (x : List Char) :
    afterWord? word (a ++ x) = (afterWord? word a).map (· ++ x) := by
  unfold afterWord?
  rw [List.take_append_of_le_length h, List.drop_append_of_le_length h]
  split <;> rfl

theorem length_of_afterWord? {cs rest : List Char} (h : afterWord? word cs = some rest) :
    rest.length + word.length = cs.length ∧ rest = cs.drop word.length := by
  unfold afterWord? at h
  split at h
  · next hmatch =>
    cases h
    have hlength := congrArg List.length hmatch.2
    rw [List.length_map, List.length_map, List.length_take] at hlength
    rw [List.length_drop]
    exact ⟨by omega, rfl⟩
  · cases h

/-- A word that is longer than what stands in front would cut into what follows. -/
theorem afterWord?_eq_none (h : a.length < word.length)
    (hfits : x.length ≤ (dropWord (word :: words) (a ++ x)).length) :
    afterWord? word (a ++ x) = none := by
  cases hword : afterWord? word (a ++ x) with
  | none => rfl
  | some rest =>
    rw [dropWord_of_some hword] at hfits
    have hlength := (length_of_afterWord? hword).1
    rw [List.length_append] at hlength
    omega

/-- If neither text loses more than what both begin with, both lose the same. -/
theorem dropWord_append (hx : x.length ≤ (dropWord words (a ++ x)).length)
    (hy : y.length ≤ (dropWord words (a ++ y)).length) :
    ∃ gone kept, a = gone ++ kept ∧ dropWord words (a ++ x) = kept ++ x ∧
      dropWord words (a ++ y) = kept ++ y := by
  induction words with
  | nil => exact ⟨[], a, rfl, rfl, rfl⟩
  | cons word words ih =>
    -- a word that fits is matched in `a` alone, any other one may not match at all
    by_cases hword : word.length ≤ a.length
    · have hafter := afterWord?_of_length_le hword
      cases ha : afterWord? word a with
      | none =>
        have hnone (z : List Char) : afterWord? word (a ++ z) = none := by
          rw [hafter, ha]
          rfl
        rw [dropWord_of_none (hnone x)] at hx ⊢
        rw [dropWord_of_none (hnone y)] at hy ⊢
        exact ih hx hy
      | some rest =>
        have hsome (z : List Char) : afterWord? word (a ++ z) = some (rest ++ z) := by
          rw [hafter, ha]
          rfl
        refine ⟨a.take word.length, rest, ?_, dropWord_of_some (hsome x),
          dropWord_of_some (hsome y)⟩
        rw [(length_of_afterWord? ha).2, List.take_append_drop]
    · have hnonex := afterWord?_eq_none (Nat.not_le.1 hword) hx
      have hnoney := afterWord?_eq_none (Nat.not_le.1 hword) hy
      rw [dropWord_of_none hnonex] at hx ⊢
      rw [dropWord_of_none hnoney] at hy ⊢
      exact ih hx hy

theorem dropBlanks_append (hx : StartsInk x) (a : List Char) :
    Text.dropBlanks (a ++ x) = Text.dropBlanks a ++ x := by
  obtain ⟨c, cs, rfl, hc⟩ := hx
  exact (span_append_of_neg hc a cs).2

theorem StartsInk.append (hx : StartsInk x) (b : List Char) : StartsInk (x ++ b) := by
  obtain ⟨c, cs, rfl, hc⟩ := hx
  exact ⟨c, cs ++ b, rfl, hc⟩

theorem StartsInk.ne_nil (hx : StartsInk x) : x ≠ [] := by
  obtain ⟨c, cs, rfl, _⟩ := hx
  exact List.cons_ne_nil c cs

theorem cut_append (hx : StartsInk x) (hy : StartsInk y)
    (hfitsx : x.length ≤ (cut words (a ++ x)).length)
    (hfitsy : y.length ≤ (cut words (a ++ y)).length) :
    ∃ gone kept, a = gone ++ kept ∧ cut words (a ++ x) = kept ++ x ∧
      cut words (a ++ y) = kept ++ y := by
  rw [cut, dropBlanks_append hx] at hfitsx ⊢
  rw [cut, dropBlanks_append hy] at hfitsy ⊢
  obtain ⟨gone, kept, ha, hcutx, hcuty⟩ := dropWord_append hfitsx hfitsy
  refine ⟨a.takeWhile Text.isBlankChar ++ gone, kept, ?_, hcutx, hcuty⟩
  rw [List.append_assoc, ← ha, Text.dropBlanks, List.takeWhile_append_dropWhile]

theorem cut_suffix (words : List (List Char)) (cs : List Char) : cut words cs <:+ cs := by
  have hword : dropWord words (Text.dropBlanks cs) <:+ Text.dropBlanks cs := by
    generalize Text.dropBlanks cs = ds
    induction words with
    | nil => exact List.suffix_rfl
    | cons word words ih =>
      cases hafter : afterWord? word ds with
      | none => rw [dropWord_of_none hafter]; exact ih
      | some rest =>
        rw [dropWord_of_some hafter, (length_of_afterWord? hafter).2]
        exact List.drop_suffix _ _
  exact hword.trans (List.dropWhile_suffix _)

variable (t : Trim)

def leadingWords : List (List Char) :=
  t.leadingOverrides.map String.toList

def trailingWords : List (List Char) :=
  (t.trailingOverrides.map String.toList).map List.reverse

theorem core_eq_cut (cs : List Char) :
    t.core cs = (cut t.trailingWords (cut t.leadingWords cs).reverse).reverse := by
  rw [core, dropEndWord, Text.dropEndBlanks, List.reverse_reverse]
  rfl

/-- How many characters trimming takes from the start of a text. -/
def frontCut (cs : List Char) : Nat :=
  cs.length - (cut t.leadingWords cs).length

/-- How many characters it then takes from the end. -/
def backCut (cs : List Char) : Nat :=
  (cut t.leadingWords cs).length - (t.core cs).length

/-- Trimming takes a text apart into these three, and keeps the one in the middle. -/
structure CutsInto (front kept back cs : List Char) : Prop where
  text : cs = front ++ kept ++ back
  cut : cut t.leadingWords cs = kept ++ back
  core : t.core cs = kept

variable {t} in
theorem CutsInto.frontCut_eq {front kept back cs : List Char}
    (h : t.CutsInto front kept back cs) : t.frontCut cs = front.length := by
  rw [frontCut, h.cut, h.text]
  simp only [List.length_append]
  omega

variable {t} in
theorem CutsInto.backCut_eq {front kept back cs : List Char}
    (h : t.CutsInto front kept back cs) : t.backCut cs = back.length := by
  rw [backCut, h.cut, h.core, List.length_append]
  omega

theorem exists_cutsInto (cs : List Char) : ∃ front back, t.CutsInto front (t.core cs) back cs := by
  obtain ⟨front, hfront⟩ := cut_suffix t.leadingWords cs
  obtain ⟨back, hback⟩ := cut_suffix t.trailingWords (cut t.leadingWords cs).reverse
  have hcut : cut t.leadingWords cs = t.core cs ++ back.reverse := by
    rw [core_eq_cut, ← List.reverse_append, hback, List.reverse_reverse]
  refine ⟨front, back.reverse, ?_, hcut, rfl⟩
  rw [List.append_assoc, ← hcut, hfront]

variable {t} in
theorem cutsInto_of_cut {front keptA keptB back : List Char} (ha : a = front ++ keptA)
    (hb : b = keptB.reverse ++ back.reverse)
    (hfront : cut t.leadingWords (a ++ (x ++ b)) = keptA ++ (x ++ b))
    (hback : cut t.trailingWords (b.reverse ++ (x.reverse ++ keptA.reverse)) =
      keptB ++ (x.reverse ++ keptA.reverse)) :
    t.CutsInto front (keptA ++ x ++ keptB.reverse) back.reverse (a ++ x ++ b) := by
  refine ⟨?_, ?_, ?_⟩
  · simp [ha, hb]
  · rw [List.append_assoc, hfront]
    simp [hb]
  · rw [core_eq_cut, List.append_assoc, hfront]
    simp [hback]

/-- What is cut off at the ends of two texts that agree there and are inked in between. -/
theorem core_append (hx : StartsInk x) (hy : StartsInk y) (hx' : StartsInk x.reverse)
    (hy' : StartsInk y.reverse) (hfrontx : t.frontCut (a ++ x ++ b) ≤ a.length)
    (hbackx : t.backCut (a ++ x ++ b) ≤ b.length) (hfronty : t.frontCut (a ++ y ++ b) ≤ a.length)
    (hbacky : t.backCut (a ++ y ++ b) ≤ b.length) :
    ∃ front keptA keptB back, a = front ++ keptA ∧ b = keptB ++ back ∧
      t.CutsInto front (keptA ++ x ++ keptB) back (a ++ x ++ b) ∧
      t.CutsInto front (keptA ++ y ++ keptB) back (a ++ y ++ b) := by
  simp only [frontCut, backCut, core_eq_cut, List.append_assoc, List.length_append,
    List.length_reverse] at hfrontx hbackx hfronty hbacky
  have hfitx : (x ++ b).length ≤ (cut t.leadingWords (a ++ (x ++ b))).length := by
    rw [List.length_append]
    omega
  have hfity : (y ++ b).length ≤ (cut t.leadingWords (a ++ (y ++ b))).length := by
    rw [List.length_append]
    omega
  obtain ⟨front, keptA, ha, hcutx, hcuty⟩ := cut_append (hx.append b) (hy.append b) hfitx hfity
  simp only [hcutx, hcuty, List.reverse_append, List.append_assoc, List.length_append]
    at hbackx hbacky
  have hfitx' : (x.reverse ++ keptA.reverse).length ≤
      (cut t.trailingWords (b.reverse ++ (x.reverse ++ keptA.reverse))).length := by
    rw [List.length_append, List.length_reverse, List.length_reverse]
    omega
  have hfity' : (y.reverse ++ keptA.reverse).length ≤
      (cut t.trailingWords (b.reverse ++ (y.reverse ++ keptA.reverse))).length := by
    rw [List.length_append, List.length_reverse, List.length_reverse]
    omega
  -- seen from the end, what is left in front belongs to what the two texts do not share
  obtain ⟨back, keptB, hb, hcutx', hcuty'⟩ := cut_append (hx'.append keptA.reverse)
    (hy'.append keptA.reverse) hfitx' hfity'
  have hb' : b = keptB.reverse ++ back.reverse := by
    rw [← List.reverse_append, ← hb, List.reverse_reverse]
  exact ⟨front, keptA, keptB.reverse, back.reverse, ha, hb',
    cutsInto_of_cut ha hb' hcutx hcutx', cutsInto_of_cut ha hb' hcuty hcuty'⟩

end Trim

/-! Static texts -/

/-- The texts with something in front of the first and behind the last of them. -/
def widen (front back : String) : List String → List String
  | [] => []
  | [t] => [front ++ t ++ back]
  | t :: u :: ts => (front ++ t) :: widen "" back (u :: ts)

theorem widen_ends (front back first last : String) (inner : List String) :
    widen front back (first :: (inner ++ [last])) =
      (front ++ first) :: (inner ++ [last ++ back]) := by
  induction inner generalizing front first with
  | nil => simp [widen]
  | cons t inner ih =>
    rw [List.cons_append, widen, ih, String.empty_append]
    rfl

theorem length_le_headD_widen (front back : String) {kept : List String} (h : kept ≠ []) :
    front.length ≤ ((widen front back kept).headD "").length := by
  cases kept with
  | nil => contradiction
  | cons t ts =>
    cases ts with
    | nil => simp [widen, String.length_append, Nat.add_assoc]
    | cons u ts => simp [widen, String.length_append]

theorem length_le_getLastD_widen (front back : String) {kept : List String} (h : kept ≠ []) :
    back.length ≤ ((widen front back kept).getLastD "").length := by
  cases kept with
  | nil => contradiction
  | cons first rest =>
    obtain rfl | ⟨inner, last, rfl⟩ := List.eq_nil_or_concat' rest
    · simp [widen, String.length_append]
    · rw [widen_ends, List.getLastD_cons, List.getLastD_concat, String.length_append]
      omega

theorem length_widen (front back : String) (ts : List String) :
    (widen front back ts).length = ts.length := by
  induction ts generalizing front with
  | nil => rfl
  | cons t ts ih =>
    cases ts with
    | nil => rfl
    | cons u ts => rw [widen, List.length_cons, List.length_cons, ih]

theorem interleave_front (first : String) (ts fillings : List String) :
    interleave (first :: ts) fillings = first ++ interleave ("" :: ts) fillings := by
  cases fillings <;> simp [interleave, String.append_assoc]

theorem interleave_cons (t f : String) (ts fillings : List String) :
    interleave (t :: ts) (f :: fillings) = t ++ f ++ interleave ts fillings := rfl

/-- The first and the last text around all of the fillings. -/
theorem interleave_ends (first last : String) (inner : List String) {fillings : List String}
    (h : fillings.length = inner.length + 1) :
    interleave (first :: (inner ++ [last])) fillings =
      first ++ interleave ("" :: (inner ++ [""])) fillings ++ last := by
  induction inner generalizing first fillings with
  | nil =>
    obtain ⟨f, rfl⟩ := List.length_eq_one_iff.1 h
    simp [interleave]
  | cons t inner ih =>
    cases fillings with
    | nil => contradiction
    | cons f fillings =>
      have hinner := ih t (Nat.succ.inj h)
      simp only [List.cons_append, interleave_cons, hinner, interleave_front t (inner ++ [""]),
        String.empty_append, String.append_assoc]

/-- What starts and ends with a filling starts and ends as the fillings do. -/
theorem startsInk_interleave (inner : List String) {fillings : List String}
    (h : fillings.length = inner.length + 1)
    (hink : ∀ f ∈ fillings, Trim.StartsInk f.toList ∧ Trim.StartsInk f.toList.reverse) :
    Trim.StartsInk (interleave ("" :: (inner ++ [""])) fillings).toList ∧
      Trim.StartsInk (interleave ("" :: (inner ++ [""])) fillings).toList.reverse := by
  induction inner generalizing fillings with
  | nil =>
    obtain ⟨f, rfl⟩ := List.length_eq_one_iff.1 h
    simpa [interleave] using hink
  | cons t inner ih =>
    cases fillings with
    | nil => contradiction
    | cons f fillings =>
      have hend := (ih (Nat.succ.inj h) fun g hg => hink g (List.mem_cons_of_mem f hg)).2
      simp only [List.cons_append, interleave_cons, interleave_front t (inner ++ [""]),
        String.empty_append, String.toList_append, List.reverse_append, List.append_assoc]
      exact ⟨(hink f List.mem_cons_self).1.append _, hend.append _⟩

namespace Trim

/-- A text loses as much at its ends as these two have. -/
structure CutsOff (t : Trim) (front back text : String) : Prop where
  front : t.frontCut text.toList = front.length
  back : t.backCut text.toList = back.length

/-- A text loses no more at its ends than the first and the last of these texts. -/
structure CutsWithin (t : Trim) (statics : List String) (text : String) : Prop where
  front : t.frontCut text.toList ≤ (statics.headD "").length
  back : t.backCut text.toList ≤ (statics.getLastD "").length

theorem exists_kept {t : Trim} {statics xs ys : List String}
    (hlengthx : statics.length = xs.length + 1) (hlengthy : statics.length = ys.length + 1)
    (hinkx : ∀ f ∈ xs, StartsInk f.toList ∧ StartsInk f.toList.reverse)
    (hinky : ∀ f ∈ ys, StartsInk f.toList ∧ StartsInk f.toList.reverse)
    (hx : t.CutsWithin statics (interleave statics xs))
    (hy : t.CutsWithin statics (interleave statics ys)) :
    ∃ front back kept, statics = widen front back kept ∧ kept.length = statics.length ∧
      t.CutsInto front.toList (interleave kept xs).toList back.toList
        (interleave statics xs).toList ∧
      t.CutsInto front.toList (interleave kept ys).toList back.toList
        (interleave statics ys).toList := by
  cases statics with
  | nil => contradiction
  | cons first rest =>
    -- without any filling the two texts are one; else something stands between first and last
    obtain rfl | ⟨inner, last, rfl⟩ := List.eq_nil_or_concat' rest
    · have hxs : xs = [] := by simpa using hlengthx
      have hys : ys = [] := by simpa using hlengthy
      subst hxs hys
      obtain ⟨front, back, hcut⟩ := t.exists_cutsInto first.toList
      refine ⟨String.ofList front, String.ofList back, [String.ofList (t.core first.toList)], ?_,
        rfl, ?_, ?_⟩
      · rw [widen, ← String.ofList_append, ← String.ofList_append, ← hcut.text,
          String.ofList_toList]
      · simpa [interleave] using hcut
      · simpa [interleave] using hcut
    · have hxs : xs.length = inner.length + 1 := by simpa using hlengthx.symm
      have hys : ys.length = inner.length + 1 := by simpa using hlengthy.symm
      obtain ⟨hstartx, hendx⟩ := startsInk_interleave inner hxs hinkx
      obtain ⟨hstarty, hendy⟩ := startsInk_interleave inner hys hinky
      obtain ⟨hfrontx, hbackx⟩ := hx
      obtain ⟨hfronty, hbacky⟩ := hy
      rw [interleave_ends _ _ _ hxs] at hfrontx hbackx
      rw [interleave_ends _ _ _ hys] at hfronty hbacky
      simp only [String.toList_append, List.headD_cons, List.getLastD_cons, List.getLastD_concat,
        ← String.length_toList] at hfrontx hbackx hfronty hbacky
      obtain ⟨front, keptA, keptB, back, hfirst, hlast, hcutx, hcuty⟩ :=
        t.core_append hstartx hstarty hendx hendy hfrontx hbackx hfronty hbacky
      refine ⟨String.ofList front, String.ofList back,
        String.ofList keptA :: (inner ++ [String.ofList keptB]), ?_, by simp, ?_, ?_⟩
      · rw [widen_ends, ← String.ofList_append, ← String.ofList_append, ← hfirst, ← hlast,
          String.ofList_toList, String.ofList_toList]
      · rw [interleave_ends first last inner hxs,
          interleave_ends (String.ofList keptA) (String.ofList keptB) inner hxs]
        simpa only [String.toList_append, String.toList_ofList] using hcutx
      · rw [interleave_ends first last inner hys,
          interleave_ends (String.ofList keptA) (String.ofList keptB) inner hys]
        simpa only [String.toList_append, String.toList_ofList] using hcuty

/-- Nothing is left of the texts and the fillings exactly if there are no fillings and nothing is
left of the one text. -/
theorem interleave_toList_eq_nil {kept fillings : List String}
    (h : kept.length = fillings.length + 1)
    (hink : ∀ f ∈ fillings, StartsInk f.toList ∧ StartsInk f.toList.reverse) :
    (interleave kept fillings).toList = [] ↔ kept = [""] := by
  cases kept with
  | nil => contradiction
  | cons t ts =>
    cases fillings with
    | nil =>
      have hts : ts = [] := by simpa using h
      subst hts
      simp [interleave]
    | cons f fillings =>
      have hts : ts ≠ [] := by
        rintro rfl
        simp at h
      have hf := (hink f List.mem_cons_self).1.ne_nil
      simp only [interleave_cons, String.toList_append, List.append_eq_nil_iff, hf, and_false,
        false_and, false_iff, List.cons.injEq, not_and]
      exact fun _ => hts

theorem interleave_widen (front back : String) {kept fillings : List String}
    (h : kept.length = fillings.length + 1) :
    interleave (widen front back kept) fillings = front ++ interleave kept fillings ++ back := by
  induction kept generalizing front fillings with
  | nil => contradiction
  | cons t ts ih =>
    cases fillings with
    | nil =>
      have hts : ts = [] := by simpa using h
      subst hts
      rfl
    | cons f fillings =>
      cases ts with
      | nil => simp at h
      | cons u ts =>
        rw [widen, interleave_cons, interleave_cons, ih "" (Nat.succ.inj h)]
        simp only [String.empty_append, String.append_assoc]

/-- The static texts of what trimming makes of the kept ones. -/
def decorate (t : Trim) (kept : List String) : List String :=
  if kept = [""] then [""] else widen (t.leading.getD "") (t.trailing.getD "") kept

theorem length_decorate (t : Trim) (kept : List String) :
    (t.decorate kept).length = kept.length := by
  unfold decorate
  split
  · next h => rw [h]
  · exact length_widen _ _ kept

theorem apply_interleave {t : Trim} {statics kept fillings : List String}
    (h : kept.length = fillings.length + 1)
    (hink : ∀ f ∈ fillings, StartsInk f.toList ∧ StartsInk f.toList.reverse)
    (hcore : t.core (interleave statics fillings).toList = (interleave kept fillings).toList) :
    t.apply (interleave statics fillings) = interleave (t.decorate kept) fillings := by
  have hnil := interleave_toList_eq_nil h hink
  rw [apply, hcore, decorate]
  split
  · next hempty =>
    have hkept := hnil.1 hempty
    subst hkept
    have hfillings : fillings = [] := by simpa using h
    rw [if_pos rfl, hfillings]
    rfl
  · next hne =>
    rw [if_neg fun hkept => hne (hnil.2 hkept), interleave_widen _ _ h, String.ofList_toList]

end Trim

namespace Texts

/-- The static texts, in the one text with the literals of the values between them and in the other
with the placeholders numbered on from `n`. -/
structure Parallel (o : Options) (n : Nat) (vs : List Value) (statics : List String) (t : Texts) :
    Prop where
  length : statics.length = vs.length + 1
  sql : ∃ literals, List.Forall₂ (fun v l => o.literal v = .ok l) vs literals ∧
    t.sql = interleave statics literals
  parameterized :
    t.parameterized = interleave statics ((List.range' (n + 1) vs.length).map o.flavor.placeholder)

variable {o : Options} {n : Nat} {vs : List Value} {statics : List String} {t : Texts}

theorem inked_literals {literals : List String}
    (h : List.Forall₂ (fun v l => o.literal v = .ok l) vs literals) :
    ∀ f ∈ literals, Trim.StartsInk f.toList ∧ Trim.StartsInk f.toList.reverse := by
  induction h with
  | nil => exact List.forall_mem_nil _
  | cons hv _ ih =>
    have hspares := Trim.spares_literal (.inl rfl : Trim.IsClause .setClause)
      (Options.literal_form hv)
    exact List.forall_mem_cons.2 ⟨⟨hspares.start, hspares.stop⟩, ih⟩

theorem inked_placeholders (f : Flavor) (ns : List Nat) :
    ∀ text ∈ ns.map f.placeholder,
      Trim.StartsInk text.toList ∧ Trim.StartsInk text.toList.reverse := by
  intro text htext
  obtain ⟨k, _, rfl⟩ := List.mem_map.1 htext
  have hspares := Trim.spares_placeholder (.inl rfl : Trim.IsClause .setClause) f k
  exact ⟨hspares.start, hspares.stop⟩

theorem Parallel.map_apply {trim : Trim} (h : t.Parallel o n vs statics)
    (hsql : trim.CutsWithin statics t.sql) (hpar : trim.CutsWithin statics t.parameterized) :
    ∃ front back kept, statics = widen front back kept ∧ trim.CutsOff front back t.sql ∧
      trim.CutsOff front back t.parameterized ∧
      (t.map trim.apply).Parallel o n vs (trim.decorate kept) := by
  obtain ⟨hlength, ⟨literals, hliterals, htext⟩, hparameterized⟩ := h
  rw [htext] at hsql ⊢
  rw [hparameterized] at hpar ⊢
  have hinkl := inked_literals hliterals
  have hinkp := inked_placeholders o.flavor (List.range' (n + 1) vs.length)
  have hlengthl : literals.length = vs.length := hliterals.length_eq.symm
  have hlengthp :
      ((List.range' (n + 1) vs.length).map o.flavor.placeholder).length = vs.length := by
    simp
  obtain ⟨front, back, kept, hstatics, hkept, hcutl, hcutp⟩ :=
    Trim.exists_kept (by omega) (by omega) hinkl hinkp hsql hpar
  refine ⟨front, back, kept, hstatics, ⟨hcutl.frontCut_eq, hcutl.backCut_eq⟩,
    ⟨hcutp.frontCut_eq, hcutp.backCut_eq⟩, ?_, ⟨literals, hliterals, ?_⟩, ?_⟩
  · rw [Trim.length_decorate, hkept, hlength]
  · rw [map, htext]
    exact Trim.apply_interleave (by omega) hinkl hcutl.core
  · rw [map, hparameterized]
    exact Trim.apply_interleave (by omega) hinkp hcutp.core

end Texts

namespace Fragment

variable {o : Options} {s u : RenderState} {t : Texts} {vs : List Value} {statics : List String}

/-- Trimming takes the same characters from both texts of a body, out of static texts alone,
exactly if neither of them loses more at an end than the static text that stands there. What is left
then has all of the literals and placeholders, with what remains of the static texts around them. -/
theorem exec_trim_parallel_iff {spec : Trim} {body : Fragment}
    (hrun : exec (body.render o) s = (.ok t, u)) (ht : t.Parallel o s.binds.size vs statics) :
    spec.CutsWithin statics t.sql ∧ spec.CutsWithin statics t.parameterized ↔
      ∃ front back kept trimmed, statics = widen front back kept ∧
        spec.CutsOff front back t.sql ∧ spec.CutsOff front back t.parameterized ∧
        exec ((trim spec body).render o) s = (.ok trimmed, u) ∧
        trimmed.Parallel o s.binds.size vs (spec.decorate kept) := by
  constructor
  · rintro ⟨hsql, hpar⟩
    obtain ⟨front, back, kept, hstatics, hoff, hoff', hparallel⟩ := ht.map_apply hsql hpar
    refine ⟨front, back, kept, t.map spec.apply, hstatics, hoff, hoff', ?_, hparallel⟩
    rw [render]
    exact exec_bind_ok.2 ⟨t, u, hrun, rfl⟩
  · rintro ⟨front, back, kept, _, rfl, hoff, hoff', _, _⟩
    have hkept : kept ≠ [] := by
      rintro rfl
      cases ht.length
    have hfront := length_le_headD_widen front back hkept
    have hback := length_le_getLastD_widen front back hkept
    exact ⟨⟨hoff.front ▸ hfront, hoff.back ▸ hback⟩, ⟨hoff'.front ▸ hfront, hoff'.back ▸ hback⟩⟩

/-- The words stand in the static texts; the zero at the end is not the one of the literal. -/
theorem exec_trim_parallel_of_words :
    let spec : Trim :=
      { leading := some "(", leadingOverrides := ["or", "and "], trailing := some ")",
        trailingOverrides := [",", "0"] }
    let body : Fragment := .seq [.text " AND a = ", .placeholder (.single "x"), .text " + 0 "]
    let o : Options := ⟨.postgreSql, .doubled⟩
    let s : RenderState := ⟨.ofRoot (.map [("x", .number (.int 10))]), #[]⟩
    ∃ front back kept trimmed u, [" AND a = ", " + 0 "] = widen front back kept ∧
      exec ((trim spec body).render o) s = (.ok trimmed, u) ∧
      trimmed.Parallel o 0 [.number (.int 10)] (spec.decorate kept) := by
  intro spec body o s
  have hrun : exec (body.render o) s =
      (.ok ⟨" AND a = 10 + 0 ", " AND a = $1 + 0 "⟩,
        { s with binds := #[.number (.int 10)] }) := by
    rfl
  have ht : Texts.Parallel o 0 [.number (.int 10)] [" AND a = ", " + 0 "]
      ⟨" AND a = 10 + 0 ", " AND a = $1 + 0 "⟩ :=
    ⟨rfl, ⟨["10"], .cons rfl .nil, by decide⟩, by decide⟩
  have hsql : spec.CutsWithin [" AND a = ", " + 0 "] " AND a = 10 + 0 " :=
    ⟨by decide, by decide⟩
  have hpar : spec.CutsWithin [" AND a = ", " + 0 "] " AND a = $1 + 0 " :=
    ⟨by decide, by decide⟩
  obtain ⟨front, back, kept, trimmed, hstatics, _, _, hparallel⟩ :=
    (exec_trim_parallel_iff hrun ht).1 ⟨hsql, hpar⟩
  exact ⟨front, back, kept, trimmed, _, hstatics, hparallel⟩

/-- A word that is found in the literal, but not in the placeholder. -/
theorem exec_trim_into_literal :
    let spec : Trim := { trailingOverrides := ["0"] }
    let body : Fragment := .seq [.text "a = ", .placeholder (.single "x")]
    let o : Options := ⟨.mySql, .doubled⟩
    let s : RenderState := ⟨.ofRoot (.map [("x", .number (.int 10))]), #[]⟩
    ∃ t trimmed u, exec (body.render o) s = (.ok t, u) ∧
      t.Parallel o 0 [.number (.int 10)] ["a = ", ""] ∧
      exec ((trim spec body).render o) s = (.ok trimmed, u) ∧
      ∀ statics, ¬trimmed.Parallel o 0 [.number (.int 10)] statics := by
  intro spec body o s
  have hrun : exec (body.render o) s =
      (.ok ⟨"a = 10", "a = ?"⟩, { s with binds := #[.number (.int 10)] }) := by
    rfl
  have htrimmed : Texts.map spec.apply ⟨"a = 10", "a = ?"⟩ = ⟨"a = 1", "a = ?"⟩ := by decide
  refine ⟨_, ⟨"a = 1", "a = ?"⟩, _, hrun, ⟨rfl, ⟨["10"], .cons rfl .nil, by decide⟩, by decide⟩,
    ?_, ?_⟩
  · rw [render, ← htrimmed]
    exact exec_bind_ok.2 ⟨_, _, hrun, rfl⟩
  · intro statics h
    obtain ⟨hlength, ⟨literals, hliterals, hsql⟩, hpar⟩ := h
    obtain ⟨a, b, rfl⟩ := List.length_eq_two.1 hlength
    obtain ⟨literal, rest, hliteral, hrest, rfl⟩ := List.forall₂_cons_left_iff.1 hliterals
    cases hrest
    cases hliteral
    -- the literal is longer than the placeholder, but the trimmed texts are of one length
    have htexts : "a = 1".length = "a = ?".length := by decide
    have hfillings : (Number.int 10).text.length = (Flavor.mySql.placeholder 1).length + 1 := by
      decide
    have hsqlLength : "a = 1".length = (a ++ (Number.int 10).text ++ b).length :=
      congrArg String.length hsql
    have hparLength : "a = ?".length = (a ++ Flavor.mySql.placeholder 1 ++ b).length :=
      congrArg String.length hpar
    simp only [String.length_append] at hsqlLength hparLength
    omega

end Fragment

end DynamicSql
